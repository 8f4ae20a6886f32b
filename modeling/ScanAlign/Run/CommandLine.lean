import ScanAlign.Run.Plan

namespace ScanAlign

inductive FileNode where
  | folder
  | text (content : String)
  -- Takes any text and stays empty.
  | sink
deriving DecidableEq

-- A place is the list of names that lead to it from the root, which is always a folder. Paths that
-- do not start at the root start `here`.
structure FileTree where
  nodes : List (List String × FileNode)
  here : List String

namespace FileTree

-- The bounds of common file systems, in bytes.
def longestName : Nat := 255

def longestPath : Nat := 4095

def node? (t : FileTree) (place : List String) : Option FileNode :=
  if place.isEmpty then some .folder else t.nodes.lookup place

def follow? (t : FileTree) (place : List String) (part : String) : Option (List String) :=
  if t.node? place ≠ some .folder then none
  else if part = "" || part = "." then some place
  else if part = ".." then some place.dropLast
  else if longestName < part.utf8ByteSize then none
  else some (place ++ [part])

-- A zero character ends a path wherever it stands, so a path that holds one names no file.
def isPath (path : String) : Bool := !path.toList.contains '\x00'

def place? (t : FileTree) (path : String) : Option (List String) :=
  if path.isEmpty || longestPath < path.utf8ByteSize || !isPath path then none
  else
    let parts := (path.toList.splitOn '/').map String.ofList
    parts.foldlM t.follow? (if path.startsWith "/" then [] else t.here)

def read? (t : FileTree) (path : String) : Option String := do
  let place ← t.place? path
  match ← t.node? place with
  | .folder => none
  | .text content => some content
  | .sink => some ""

def write? (t : FileTree) (path content : String) : Option FileTree := do
  let place ← t.place? path
  match t.node? place with
  | some .folder => none
  | some .sink => some t
  | _ => some { t with nodes := (place, .text content) :: t.nodes }

end FileTree

structure Surroundings (m : Type → Type) where
  -- `none` if there is no text to read.
  read : String → m (Option String)
  -- Whether the file could be written.
  write : String → String → m Bool
  print : String → m Unit
  complain : String → m Unit
  -- Shows the events of the search from now on. What they look like is up to the surroundings.
  listen : m Unit

structure Stage where
  files : FileTree
  printed : String
  complaints : String
  -- Whether events are shown among what is printed.
  listening : Bool

namespace Stage

def ofFiles (files : FileTree) : Stage := ⟨files, "", "", false⟩

def surroundings : Surroundings (StateM Stage) where
  read path := fun s => (s.files.read? path, s)
  write path content := fun s =>
    match s.files.write? path content with
    | some files => (true, { s with files := files })
    | none => (false, s)
  print text := fun s => ((), { s with printed := s.printed ++ text })
  complain text := fun s => ((), { s with complaints := s.complaints ++ text })
  listen := fun s => ((), { s with listening := true })

end Stage

structure MatchRecord where
  x : Single
  y : Single
  heading : Single
  score : Single
  rotation : Nat
  dx : Int
  dy : Int
deriving DecidableEq

structure Report where
  best : MatchRecord
  ranked : List MatchRecord
deriving DecidableEq

-- Numbers in reports: a point always, positional below ten to the thirteenth, small numbers down to
-- a millionth, powers always with a sign; of two equally near decimals the even one.
def Report.number : DecimalStyle := ⟨some (-5), some 13, true, true, .even⟩

namespace MatchRecord

def ofAlignment (a : Alignment) : MatchRecord :=
  ⟨a.pose.x, a.pose.y, a.pose.heading, a.score, a.candidate.rotation, a.candidate.dx,
   a.candidate.dy⟩

-- A number in a report; there is no numeral for one that is not finite.
def numberText (x : Single) : String := if x.isFinite then x.text Report.number else "null"

def layout (r : MatchRecord) : Json.Layout :=
  .object
    [("x", .leaf (numberText r.x)),
     ("y", .leaf (numberText r.y)),
     ("theta", .leaf (numberText r.heading)),
     ("score", .leaf (numberText r.score)),
     ("scan_index", .leaf (Nat.repr r.rotation)),
     ("x_index_offset", .leaf (Int.repr r.dx)),
     ("y_index_offset", .leaf (Int.repr r.dy))]

end MatchRecord

namespace Report

def ofAlignments? : List Alignment → Option Report
  | [] => none
  | best :: rest => some ⟨.ofAlignment best, (best :: rest).map .ofAlignment⟩

def text (r : Report) : String :=
  (Json.Layout.object
    [("best", r.best.layout), ("topk", .array (r.ranked.map MatchRecord.layout))]).text

end Report

structure Options where
  path : Option String
  printExample : Bool
  trace : Bool
deriving DecidableEq

namespace Options

def standard : Options := ⟨none, false, false⟩

def configPath (options : Options) : String := options.path.getD "config.json"

-- Every option can be given once, and a path is not empty.
def givePath? (options : Options) (path : String) : Option Options :=
  if options.path.isSome || path.isEmpty then none else some { options with path := some path }

def givePrintExample? (options : Options) : Option Options :=
  if options.printExample then none else some { options with printExample := true }

def giveTrace? (options : Options) : Option Options :=
  if options.trace then none else some { options with trace := true }

-- An argument that can follow an option as its value. A dash by itself is a value.
def isValue (argument : String) : Bool := argument == "-" || !argument.startsWith "-"

def pathIn? (argument : String) : Option String :=
  let after (option : String) : String := String.ofList (argument.toList.drop option.length)
  if argument.startsWith "--config=" then some (after "--config=")
  else if argument.startsWith "-c=" then some (after "-c=")
  else if argument.startsWith "-c" then some (after "-c")
  else none

def ofArguments? (options : Options) : List String → Option Options
  | [] => some options
  | ["--"] => some options
  | "--print-example" :: rest => options.givePrintExample?.bind (ofArguments? · rest)
  | "--trace" :: rest => options.giveTrace?.bind (ofArguments? · rest)
  | "--config" :: path :: rest =>
    if isValue path then (options.givePath? path).bind (ofArguments? · rest) else none
  | "-c" :: path :: rest =>
    if isValue path then (options.givePath? path).bind (ofArguments? · rest) else none
  | argument :: rest =>
    ((pathIn? argument).bind options.givePath?).bind (ofArguments? · rest)

end Options

variable {m : Type → Type} [Monad m]

namespace Plan

-- The pose around which is searched, its heading wrapped.
def start (plan : Plan) : Pose := .wrapped plan.initial.x plan.initial.y plan.initial.heading

def cloud (plan : Plan) : Cloud := ⟨plan.scan⟩

-- The best alignments of a plan, as many as it asks for. The count is checked first, then the map
-- is built, then the settings are checked.
def alignments (plan : Plan) : Except RunError (List Alignment) := do
  if plan.count = 0 then .error .zeroCount
  else
    let map ← plan.map.build
    let matcher ← (Matcher.ofSettings plan.settings).mapError
      fun reason => .failure (.rejected reason)
    (matcher.alignBest plan.start plan.cloud map plan.count).mapError .failure

def report (plan : Plan) : Except RunError Report := do
  let alignments ← plan.alignments
  match Report.ofAlignments? alignments with
  | none => .error .noHypotheses
  | some report => return report

def deliver (plan : Plan) (s : Surroundings m) (report : Report) : ExceptT RunError m Unit := do
  match plan.outputPath with
  | none => s.print (report.text ++ "\n")
  | some path =>
    if !FileTree.isPath path then throw .zeroInPath
    else
      let written ← s.write path report.text
      if !written then throw .unwritable

def execute (plan : Plan) (s : Surroundings m) : ExceptT RunError m Unit :=
  match plan.report with
  | .error e => throw e
  | .ok report => plan.deliver s report

end Plan

namespace CommandLine

def exampleLines : List String :=
  ["\x7b",
   "  \"map\": \x7b",
   "    \"kind\": \"probability\",",
   "    \"resolution\": 0.05,",
   "    \"origin\": [-2.5, -2.0],",
   "    \"num_x_cells\": 100,",
   "    \"num_y_cells\": 80,",
   "    \"hit_probability\": 0.9,",
   "    \"truncation_distance\": 0.3,",
   "    \"walls\": [",
   "      [[-2.0, -1.5], [2.0, -1.5]],",
   "      [[2.0, -1.5], [2.0, 1.5]],",
   "      [[2.0, 1.5], [-2.0, 1.5]],",
   "      [[-2.0, 1.5], [-2.0, -1.5]],",
   "      [[0.5, -1.5], [0.5, -0.8]]",
   "    ],",
   "    \"occupied\": []",
   "  \x7d,",
   "  \"scan\": [",
   "    [1.873, -0.112], [1.903, 0.389], [1.937, 0.969], [1.667, 1.478],",
   "    [1.003, 1.519], [0.516, 1.548], [0.095, 1.573], [-0.327, 1.599],",
   "    [-0.814, 1.628], [-1.478, 1.667], [-2.039, 1.347], [-2.078, 0.693],",
   "    [-2.112, 0.127], [-2.146, -0.439], [-2.186, -1.093], [-1.498, -1.328],",
   "    [-0.9, -1.364], [-0.464, -1.391], [-0.085, -1.413], [0.291, -1.421],",
   "    [0.731, -1.462], [1.328, -1.498], [1.807, -1.194], [1.842, -0.614]",
   "  ],",
   "  \"initial_pose\": \x7b \"x\": 0.05, \"y\": -0.02, \"theta\": 0.0 \x7d,",
   "  \"topk\": 3,",
   "  \"output_path\": null,",
   "  \"match\": \x7b",
   "    \"linear_search_window\": 0.15,",
   "    \"angular_search_window\": 0.12,",
   "    \"translation_delta_cost_weight\": 0.1,",
   "    \"rotation_delta_cost_weight\": 0.1,",
   "    \"parallel\": false",
   "  \x7d",
   "\x7d"]

def exampleText : String := "\n".intercalate exampleLines ++ "\n"

def execute (options : Options) (s : Surroundings m) : ExceptT RunError m Unit := do
  if options.trace then s.listen
  if options.printExample then s.print (exampleText ++ "\n")
  else if !FileTree.isPath options.configPath then throw .zeroInPath
  else
    match ← s.read options.configPath with
    | none => throw .unreadable
    | some text =>
      match Plan.ofText? text with
      | none => throw .malformed
      | some plan => plan.execute s

-- What a run among the given files prints, and the files after it.
def runAmong (options : Options) (files : FileTree) : Except RunError (String × FileTree) :=
  match (execute options Stage.surroundings).run (.ofFiles files) with
  | (.ok (), after) => .ok (after.printed, after.files)
  | (.error e, _) => .error e

def usage : String := "usage: scan-align [--config FILE] [--print-example] [--trace]\n"

def program (s : Surroundings m) (arguments : List String) : m UInt32 := do
  match Options.ofArguments? .standard arguments with
  | none =>
    s.complain usage
    return 2
  | some options =>
    match ← (execute options s).run with
    | .ok () => return 0
    | .error e =>
      s.complain (e.report ++ "\n")
      return e.status

end CommandLine

end ScanAlign
