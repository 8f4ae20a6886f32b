import ScanAlign.Number.Functions

namespace ScanAlign

structure Point where
  x : Single
  y : Single
deriving DecidableEq

namespace Point

instance : Inhabited Point := ⟨⟨.zero, .zero⟩⟩

instance : Add Point := ⟨fun p q => ⟨p.x + q.x, p.y + q.y⟩⟩

instance : Sub Point := ⟨fun p q => ⟨p.x - q.x, p.y - q.y⟩⟩

def norm (p : Point) : Single := p.x.hypotenuse p.y

def rotate (p : Point) (r : Rotation) : Point :=
  ⟨p.x * r.cosine - p.y * r.sine, p.x * r.sine + p.y * r.cosine⟩

def isFinite (p : Point) : Bool := p.x.isFinite && p.y.isFinite

end Point

structure Cloud where
  points : List Point
deriving DecidableEq

namespace Cloud

def empty : Cloud := ⟨[]⟩

def size (c : Cloud) : Nat := c.points.length

def isEmpty (c : Cloud) : Bool := c.points.isEmpty

def rotate (c : Cloud) (angle : Single) : Cloud :=
  let r := Rotation.ofAngle angle
  ⟨c.points.map (·.rotate r)⟩

-- The distance of the farthest point from the origin; zero for no points. Distances that are no
-- number do not count.
def range (c : Cloud) : Single :=
  c.points.foldl (fun farthest p => farthest.larger p.norm) .zero

def isFinite (c : Cloud) : Bool := c.points.all Point.isFinite

end Cloud

structure Pose where
  x : Single
  y : Single
  heading : Single
deriving DecidableEq

namespace Pose

def wrapped (x y heading : Single) : Pose := ⟨x, y, heading.wrapAngle⟩

def identity : Pose := ⟨.zero, .zero, .zero⟩

def ofAngle (angle : Single) : Pose := wrapped .zero .zero angle

def translation (p : Pose) : Point := ⟨p.x, p.y⟩

-- Applies `q` in the frame of `p`.
def compose (p q : Pose) : Pose :=
  let r := Rotation.ofAngle p.heading
  wrapped (p.x + q.x * r.cosine - q.y * r.sine) (p.y + q.x * r.sine + q.y * r.cosine)
    (p.heading + q.heading)

def inverse (p : Pose) : Pose :=
  let r := Rotation.ofAngle p.heading
  wrapped (-p.x * r.cosine - p.y * r.sine) (p.x * r.sine - p.y * r.cosine) (-p.heading)

def apply (p : Pose) (point : Point) : Point :=
  point.rotate (.ofAngle p.heading) + p.translation

def isFinite (p : Pose) : Bool := p.x.isFinite && p.y.isFinite && p.heading.isFinite

end Pose

def Cloud.transform (c : Cloud) (p : Pose) : Cloud :=
  let r := Rotation.ofAngle p.heading
  ⟨c.points.map fun point => point.rotate r + p.translation⟩

structure Cell where
  x : Int
  y : Int
deriving DecidableEq, Repr

-- A shift that would leave the whole numbers of 32 bits stops at their edge.
def Cell.shift (c : Cell) (dx dy : Int) : Cell :=
  ⟨Single.saturate (c.x + dx), Single.saturate (c.y + dy)⟩

end ScanAlign
