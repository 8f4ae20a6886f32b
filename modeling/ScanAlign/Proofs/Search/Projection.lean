import Mathlib.Data.List.FinRange
import ScanAlign.Proofs.Number.Dyadic
import ScanAlign.Proofs.Search.Windows

namespace ScanAlign

namespace ScanBank

variable {s : SearchSpace} {l : Limits} {cloud : Cloud} {translation : Point}

-- The scan under each rotation holds the cells of the turned and moved points, one for each.
structure Projects (b : ScanBank) (cloud : Cloud) (s : SearchSpace) (l : Limits)
    (translation : Point) : Prop where
  size_eq : b.size = s.rotations
  scan : ∀ place < s.rotations, ∃ angle scan, s.angleAt place = .ok angle ∧
    b.scans[place]? = some scan ∧ scan.length = cloud.size ∧
      ∀ (i : Nat) (p : Point), cloud.points[i]? = some p →
        scan[i]? = some (l.cellOf (p.rotate (.ofAngle angle) + translation))

theorem length_scan (place : Nat) : (s.scan l cloud translation place).length = cloud.size := by
  simp [SearchSpace.scan, Limits.project, Cloud.rotate, Cloud.size]

theorem getElem?_scan {i : Nat} {p : Point} (place : Nat) (found : cloud.points[i]? = some p) :
    (s.scan l cloud translation place)[i]? =
      some (l.cellOf (p.rotate (.ofAngle (s.angle place)) + translation)) := by
  simp [SearchSpace.scan, Limits.project, Cloud.rotate, found]

theorem bank_projects (sound : s.Sound) (l : Limits) (cloud : Cloud) (translation : Point) :
    (s.bank l cloud translation).Projects cloud s l translation := by
  refine ⟨SearchSpace.size_bank, ?_⟩
  intro place inside
  refine ⟨s.angle place, s.scan l cloud translation place, SearchSpace.angleAt_eq sound inside,
    SearchSpace.getElem?_bank inside, length_scan place, ?_⟩
  intro i p found
  exact getElem?_scan place found

theorem buildPacked_projects (V : Type) [Packed V] [Lanewise V] (cloud : Cloud) (s : SearchSpace)
    (l : Limits) (translation : Point) :
    buildPacked V cloud s l translation =
        ((cloud.turned s).map fun turned => projectAll l turned translation) ∧
      (s.Reachable → ∃ turned bank, cloud.turned s = .ok turned ∧
        projectAll l turned translation = bank ∧ buildPacked V cloud s l translation = .ok bank ∧
          bank.Projects cloud s l translation) := by
  refine ⟨buildPacked_eq V cloud s l translation, ?_⟩
  intro reachable
  have sound := SearchSpace.reachable_sound reachable
  exact ⟨s.turnedScans cloud, s.bank l cloud translation, SearchSpace.turned_eq sound cloud,
    s.projectAll_turnedScans l cloud translation,
    SearchSpace.buildPacked_ok V sound l cloud translation, bank_projects sound l cloud translation⟩

-- Five points: one more than a pack holds, and that one infinitely far.
def fivePoints : Cloud :=
  ⟨[⟨.zero, .zero⟩, ⟨.one, .zero⟩, ⟨.zero, .one⟩, ⟨.one, .nan⟩, ⟨.infinity false, .one⟩]⟩

theorem buildPacked_projects_five :
    ∃ bank, buildPacked Lanes fivePoints (.ofCounts 0 1 .one .one) .twelveCells ⟨.one, .zero⟩ =
        .ok bank ∧
      bank.size = 3 ∧ ∃ scan, bank.scans[1]? = some scan ∧ scan.length = 5 ∧
        scan[1]? = some ⟨2, 0⟩ ∧ scan[4]? = some ⟨Single.greatestWhole, 0⟩ := by
  obtain ⟨_, bank, _, _, built, projects⟩ := (buildPacked_projects Lanes fivePoints
    (.ofCounts 0 1 .one .one) .twelveCells ⟨.one, .zero⟩).2 (.counts 0 1 .one .one)
  obtain ⟨angle, scan, turned, found, length, cells⟩ := projects.scan 1 (by decide)
  obtain rfl : .ofInt 0 * .one = angle := Except.ok.inj turned
  refine ⟨bank, built, projects.size_eq, scan, found, length, ?_, ?_⟩
  · rw [cells 1 ⟨.one, .zero⟩ rfl]
    decide +kernel
  · rw [cells 4 ⟨.infinity false, .one⟩ rfl]
    decide +kernel

end ScanBank

namespace Single

variable {x y : Single}

def extent (x : Single) : Nat := if x.isNaN then 0 else x.magnitude

-- An infinite leg makes the length infinite, so it has no value only where a leg has none.
theorem larger_spec (plus : x.IsPlus) (distance : y.isNaN = true ∨ y.IsPlus) :
    (x.larger y).IsPlus ∧ (x.larger y).magnitude = max x.magnitude y.extent := by
  rcases distance with nan | yPlus
  · simp [larger, extent, plus.number, nan, plus]
  · have size : y.extent = y.magnitude := by simp [extent, yPlus.number]
    by_cases less : x < y
    · have taken : x.larger y = y := by simp [larger, plus.number, yPlus.number, less]
      rw [taken, size, Nat.max_eq_right ((plus.lt_iff yPlus).mp less).le]
      exact ⟨yPlus, rfl⟩
    · have kept : x.larger y = x := by simp [larger, plus.number, yPlus.number, less]
      have above := Nat.not_lt.mp (mt (plus.lt_iff yPlus).mpr less)
      rw [kept, size, Nat.max_eq_left above]
      exact ⟨plus, rfl⟩

end Single

namespace Cloud

theorem foldl_larger_spec {x : Single} (plus : x.IsPlus) (points : List Point) :
    (points.foldl (fun farthest p => farthest.larger p.norm) x).IsPlus ∧
      (points.foldl (fun farthest p => farthest.larger p.norm) x).magnitude =
        (points.map (·.norm.extent)).foldl max x.magnitude := by
  induction points generalizing x with
  | nil => exact ⟨plus, rfl⟩
  | cons p rest ih =>
    obtain ⟨next, size⟩ := Single.larger_spec plus (Single.hypotenuse_cases p.x p.y)
    have whole := ih next
    rw [size] at whole
    exact whole

theorem range_spec (cloud : Cloud) :
    cloud.range.IsPlus ∧
      cloud.range.magnitude = (cloud.points.map (·.norm.extent)).foldl max 0 :=
  foldl_larger_spec Single.isPlus_zero cloud.points

theorem range_perm {cloud cloud' : Cloud} (moved : cloud'.points.Perm cloud.points) :
    cloud'.range = cloud.range := by
  obtain ⟨plus, size⟩ := cloud.range_spec
  obtain ⟨plus', size'⟩ := cloud'.range_spec
  apply Single.eq_of_parts
  · rw [plus.plus, plus'.plus]
  · rw [size, size']
    exact (moved.map _).foldl_op_eq

def point (cloud : Cloud) : Fin cloud.size → Point := cloud.points.get

theorem points_eq (cloud : Cloud) : cloud.points = List.ofFn cloud.point := (List.ofFn_get _).symm

-- The same points, number `i` of the new order being number `σ i` of the old one.
def reorder (cloud : Cloud) (σ : Equiv.Perm (Fin cloud.size)) : Cloud :=
  ⟨List.ofFn (cloud.point ∘ σ)⟩

theorem reorder_perm (cloud : Cloud) (σ : Equiv.Perm (Fin cloud.size)) :
    (cloud.reorder σ).points.Perm cloud.points := by
  rw [points_eq cloud]
  exact σ.ofFn_comp_perm cloud.point

end Cloud

namespace Window

variable {l : Limits} {w w' : Window} {scan scan' : CellScan}

theorem eq_of_allows (zero : w.Allows 0 0) (zero' : w'.Allows 0 0)
    (same : ∀ dx dy, w.Allows dx dy ↔ w'.Allows dx dy) : w = w' := by
  have left := same w.minX 0
  have right := same w.maxX 0
  have down := same 0 w.minY
  have up := same 0 w.maxY
  have left' := same w'.minX 0
  have right' := same w'.maxX 0
  have down' := same 0 w'.minY
  have up' := same 0 w'.maxY
  cases w
  cases w'
  simp only [Allows, mk.injEq] at *
  omega

theorem kept_perm (moved : scan'.Perm scan) : kept l scan' = kept l scan := by
  apply eq_of_allows (kept_zero l scan') (kept_zero l scan)
  intro dx dy
  simp only [allows_kept, Stays, moved.mem_iff]

end Window

namespace SearchSpace

theorem covering_reorder (linear angular : Single) (cloud : Cloud) (σ : Equiv.Perm (Fin cloud.size))
    (resolution : Single) :
    covering linear angular (cloud.reorder σ) resolution = covering linear angular cloud resolution := by
  simp only [covering, stepFor, Cloud.range_perm (cloud.reorder_perm σ)]

def cellOfPoint (s : SearchSpace) (l : Limits) (cloud : Cloud) (translation : Point) (place : Nat) :
    Fin cloud.size → Cell :=
  fun i => l.cellOf ((cloud.point i).rotate (.ofAngle (s.angle place)) + translation)

theorem scan_eq (s : SearchSpace) (l : Limits) (cloud : Cloud) (translation : Point) (place : Nat) :
    s.scan l cloud translation place = List.ofFn (s.cellOfPoint l cloud translation place) := by
  simp only [scan, Limits.project, Cloud.rotate, cloud.points_eq, List.map_ofFn]
  rfl

theorem scan_reorder (s : SearchSpace) (l : Limits) (cloud : Cloud) (σ : Equiv.Perm (Fin cloud.size))
    (translation : Point) (place : Nat) :
    s.scan l (cloud.reorder σ) translation place =
      List.ofFn (s.cellOfPoint l cloud translation place ∘ σ) := by
  simp only [scan, Limits.project, Cloud.rotate, Cloud.reorder, List.map_ofFn]
  rfl

theorem fitted_reorder (s : SearchSpace) (l : Limits) (cloud : Cloud)
    (σ : Equiv.Perm (Fin cloud.size)) (translation : Point) :
    s.fitted (s.bank l (cloud.reorder σ) translation) l = s.fitted (s.bank l cloud translation) l := by
  have kept (place : Nat) : Window.kept l (s.scan l (cloud.reorder σ) translation place) =
      Window.kept l (s.scan l cloud translation place) := by
    apply Window.kept_perm
    rw [scan_reorder, scan_eq]
    exact σ.ofFn_comp_perm _
  simp only [fitted, bank, List.zip_map_right, List.map_map, Function.comp_def, Prod.map_fst,
    Prod.map_snd, id, kept]

-- One run of the layout: the space that covers the windows, the bank, the space clipped to the map, and
-- what listing its hypotheses gives.
structure Lays (linear angular resolution : Single) (l : Limits) (translation : Point) (cloud : Cloud)
    (start : SearchSpace) (bank : ScanBank) (clipped : SearchSpace)
    (listed : Except Fault (List Candidate)) : Prop where
  covered : covering linear angular cloud resolution = .ok start
  built : ScanBank.build cloud start l translation = .ok bank
  fitted : start.fit bank l = .ok clipped
  listed : clipped.candidates = listed

theorem reorder_lays (linear angular resolution : Single) (l : Limits) (translation : Point)
    (cloud : Cloud) (σ : Equiv.Perm (Fin cloud.size)) :
    covering linear angular (cloud.reorder σ) resolution = covering linear angular cloud resolution ∧
      ∀ start, covering linear angular cloud resolution = .ok start →
        ∃ bank bank' clipped listed,
          Lays linear angular resolution l translation cloud start bank clipped listed ∧
          Lays linear angular resolution l translation (cloud.reorder σ) start bank' clipped listed ∧
          bank.size = start.rotations ∧ bank'.size = start.rotations ∧
          ∀ place, place < start.rotations → ∃ cells : Fin cloud.size → Cell,
            bank.scans[place]? = some (List.ofFn cells) ∧
              bank'.scans[place]? = some (List.ofFn (cells ∘ σ)) := by
  have same := covering_reorder linear angular cloud σ resolution
  refine ⟨same, ?_⟩
  intro start covered
  have sound := covering_sound covered
  refine ⟨start.bank l cloud translation, start.bank l (cloud.reorder σ) translation,
    start.fitted (start.bank l cloud translation) l,
    (start.fitted (start.bank l cloud translation) l).candidates, ?_, ?_, size_bank, size_bank, ?_⟩
  · exact ⟨covered, build_eq sound _ _ _, fit_eq size_bank l, rfl⟩
  · refine ⟨same.trans covered, build_eq sound _ _ _, ?_, rfl⟩
    rw [← fitted_reorder start l cloud σ translation]
    exact fit_eq size_bank l
  · intro place inside
    refine ⟨start.cellOfPoint l cloud translation place, ?_, ?_⟩
    · rw [getElem?_bank inside, scan_eq]
    · rw [getElem?_bank inside, scan_reorder]

-- The five points backwards, among them one without a distance and one infinitely far.
theorem reorder_lays_backwards :
    (ScanBank.fivePoints.reorder Fin.revPerm).points = ScanBank.fivePoints.points.reverse ∧
      ∃ start bank bank' clipped listed,
        Lays .one .one .one .twelveCells ⟨.one, .zero⟩ ScanBank.fivePoints start bank clipped listed ∧
        Lays .one .one .one .twelveCells ⟨.one, .zero⟩ (ScanBank.fivePoints.reorder Fin.revPerm) start
          bank' clipped listed ∧
        ∃ cells : Fin 5 → Cell, bank.scans[0]? = some (List.ofFn cells) ∧
          bank'.scans[0]? = some (List.ofFn (cells ∘ Fin.rev)) := by
  refine ⟨rfl, ?_⟩
  have positive : Single.zero < Single.one := by decide +kernel
  obtain ⟨start, covered⟩ : ∃ start, covering .one .one ScanBank.fivePoints .one = .ok start :=
    ⟨_, covering_eq positive _ _ _⟩
  obtain ⟨_, runs⟩ := reorder_lays .one .one .one .twelveCells ⟨.one, .zero⟩ ScanBank.fivePoints
    Fin.revPerm
  obtain ⟨bank, bank', clipped, listed, lays, lays', _, _, scans⟩ := runs start covered
  have unturned : 0 < start.rotations := Nat.succ_pos _
  obtain ⟨cells, scan, scan'⟩ := scans 0 unturned
  exact ⟨start, bank, bank', clipped, listed, lays, lays', cells, scan, scan'⟩

end SearchSpace

end ScanAlign
