import ScanAlign.Run.CommandLine

namespace ScanAlign

namespace CommandLine

def surroundings : Surroundings IO where
  read path := (some <$> IO.FS.readFile path) <|> pure none
  write path content := (do IO.FS.writeFile path content; return true) <|> pure false
  print text := IO.print text
  complain text := IO.eprint text
  -- Nothing is told about the search.
  listen := pure ()

end CommandLine

end ScanAlign

def main (arguments : List String) : IO UInt32 :=
  ScanAlign.CommandLine.program ScanAlign.CommandLine.surroundings arguments
