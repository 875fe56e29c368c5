import FourLane.Binary32.Arithmetic
import FourLane.Report

/-!
# Lanes, quadruples and registers

A quadruple holds one value for each of the four lanes `x`, `y`, `z` and `w`. Its view is the
function `get` from lanes to values: two quadruples with the same view are equal, and each operation
here has one lemma that says what it does to the view.

A register is a quadruple of words. It can be given by words, by signed integers, by binary32 data
or by sixteen bytes, and read in each of these ways; every reading gives back all 128 bits.
-/

namespace FourLane

/-! ## Lanes and quadruples -/

/-- One of the four places of a quadruple. -/
inductive Lane where
  | x | y | z | w
  deriving DecidableEq, Repr

namespace Lane

/-- The lanes in their order. -/
def all : List Lane := [x, y, z, w]

/-- The number of a lane. -/
def index : Lane → Nat
  | x => 0
  | y => 1
  | z => 2
  | w => 3

/-- The letter of a lane as it is shown. -/
def name : Lane → String
  | x => "X"
  | y => "Y"
  | z => "Z"
  | w => "W"

/-- The lane with this number, of which there are four. -/
def ofIndex : Nat → Except Error Lane
  | 0 => .ok x
  | 1 => .ok y
  | 2 => .ok z
  | 3 => .ok w
  | index => .error (.laneOutOfRange index)

/-- Lanes are ordered by their numbers. -/
instance : Ord Lane where
  compare a b := compare a.index b.index

end Lane

/-- One value for each lane. -/
structure Quad (α : Type) where
  x : α
  y : α
  z : α
  w : α
  deriving DecidableEq, Repr

namespace Quad

variable {α β γ δ : Type}

/-- The value in a lane: the view of a quadruple. -/
def get (q : Quad α) : Lane → α
  | .x => q.x
  | .y => q.y
  | .z => q.z
  | .w => q.w

/-- The quadruple with the value `f l` in lane `l`. -/
def ofFn (f : Lane → α) : Quad α := ⟨f .x, f .y, f .z, f .w⟩

/-- One value in every lane. -/
def splat (a : α) : Quad α := ⟨a, a, a, a⟩

/-- A function on every lane. -/
def map (f : α → β) (a : Quad α) : Quad β := ⟨f a.x, f a.y, f a.z, f a.w⟩

/-- A function on the two values of every lane. -/
def map₂ (f : α → β → γ) (a : Quad α) (b : Quad β) : Quad γ :=
  ⟨f a.x b.x, f a.y b.y, f a.z b.z, f a.w b.w⟩

/-- A function on the three values of every lane. -/
def map₃ (f : α → β → γ → δ) (a : Quad α) (b : Quad β) (c : Quad γ) : Quad δ :=
  ⟨f a.x b.x c.x, f a.y b.y c.y, f a.z b.z c.z, f a.w b.w c.w⟩

/-- The values in the order of the lanes. -/
def toList (q : Quad α) : List α := [q.x, q.y, q.z, q.w]

/-- The quadruple of exactly four values. -/
def ofList? : List α → Option (Quad α)
  | [x, y, z, w] => some ⟨x, y, z, w⟩
  | _ => none

/-! ### The view -/

/-- Quadruples with the same view are equal. -/
theorem ext_get {a b : Quad α} (h : ∀ l, a.get l = b.get l) : a = b := by
  cases a
  cases b
  simpa [get] using And.intro (h .x) (And.intro (h .y) (And.intro (h .z) (h .w)))

@[simp] theorem get_ofFn (f : Lane → α) (l : Lane) : (ofFn f).get l = f l := by cases l <;> rfl

@[simp] theorem get_splat (a : α) (l : Lane) : (splat a).get l = a := by cases l <;> rfl

@[simp] theorem get_map (f : α → β) (a : Quad α) (l : Lane) : (a.map f).get l = f (a.get l) := by
  cases l <;> rfl

@[simp] theorem get_map₂ (f : α → β → γ) (a : Quad α) (b : Quad β) (l : Lane) :
    (map₂ f a b).get l = f (a.get l) (b.get l) := by
  cases l <;> rfl

@[simp] theorem get_map₃ (f : α → β → γ → δ) (a : Quad α) (b : Quad β) (c : Quad γ) (l : Lane) :
    (map₃ f a b c).get l = f (a.get l) (b.get l) (c.get l) := by
  cases l <;> rfl

theorem toList_eq_map_get (q : Quad α) : q.toList = Lane.all.map q.get := rfl

theorem toList_of_ofList? {values : List α} {q : Quad α} (h : ofList? values = some q) :
    q.toList = values := by
  unfold ofList? at h
  split at h
  · cases h
    rfl
  · cases h

end Quad

/-! ## Registers -/

/-- Four lanes of 32 bits. -/
abbrev Register := Quad Word

/-- A lookup past the last lane. -/
structure OutOfBounds where
  index : Nat
  deriving DecidableEq, Repr

/-- How a lookup past the last lane is told. -/
def OutOfBounds.message (e : OutOfBounds) : String :=
  "index out of bounds: the len is 4 but the index is " ++ Error.number e.index

namespace Register

/-- The register of zeros. -/
def zero : Register := Quad.splat 0

/-! ### From and to words -/

/-- The register of exactly four words. -/
def ofWords (words : List Word) : Except Error Register :=
  match Quad.ofList? words with
  | some r => .ok r
  | none => .error (.laneCount words.length)

/-- The word with this number, counted from lane `x`. -/
def lookup (r : Register) (index : Nat) : Except OutOfBounds Word :=
  match r.toList[index]? with
  | some w => .ok w
  | none => .error ⟨index⟩

/-! ### From and to numbers -/

/-- The register of the two's complement patterns of four integers. -/
def ofInts (ints : Quad Int) : Register := ints.map Word.ofInt

/-- The lanes as signed integers. -/
def toInts (r : Register) : Quad Int := r.map BitVec.toInt

/-- The register of the words of four data; nothing is clamped. -/
def ofFloats (floats : Quad Binary32) : Register := floats.map Binary32.toWord

/-- The lanes as binary32 data. -/
def toFloats (r : Register) : Quad Binary32 := r.map Binary32.ofWord

/-! ### From and to bytes -/

/-- The register of exactly sixteen bytes, four for each lane, least significant first. -/
def ofBytes (bytes : List Byte) : Except Error Register :=
  if bytes.length = 16 then
    .ok (Quad.ofFn fun l => Word.ofBytes ((bytes.drop (4 * l.index)).take 4))
  else .error (.byteCount bytes.length)

/-- The sixteen bytes of a register, lane by lane. -/
def toBytes (r : Register) : List Byte := r.toList.flatMap Word.toBytes

/-! ### Nothing is lost -/

theorem ofWords_toList (r : Register) : ofWords r.toList = .ok r := rfl

theorem ofInts_toInts (r : Register) : ofInts r.toInts = r := by
  apply Quad.ext_get
  simp [ofInts, toInts, Word.ofInt_toInt]

theorem ofFloats_toFloats (r : Register) : ofFloats r.toFloats = r := by
  apply Quad.ext_get
  simp [ofFloats, toFloats, Binary32.toWord_ofWord]

theorem ofBytes_toBytes (r : Register) : ofBytes r.toBytes = .ok r := by
  have h : r.toBytes.length = 16 := by simp [toBytes, Quad.toList]
  rw [ofBytes, if_pos h]
  congr 1
  apply Quad.ext_get
  intro l
  rw [Quad.get_ofFn]
  cases l
  · exact Word.ofBytes_toBytes r.x
  · exact Word.ofBytes_toBytes r.y
  · exact Word.ofBytes_toBytes r.z
  · exact Word.ofBytes_toBytes r.w

end Register

end FourLane
