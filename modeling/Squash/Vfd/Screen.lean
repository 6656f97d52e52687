import Mathlib.Data.Set.Insert
import Mathlib.Tactic.IntervalCases
import Squash.Foundations.Picture

/-!
# The display buffer of the EMPEG

The display has 128 pixels in each of 32 rows. Its buffer has 2048 bytes, and each nybble of a byte is
a pixel: the low one is the pixel on the left. `screen` is the canvas that the buffer shows.

A byte is always written for the sake of one of its pixels, or of both. `draws_putLo`, `draws_putHi` and
`draws_putBoth` say what that draws, and are all that is to be known of bits. An access outside of
the buffer makes an operation fail. The integers are exact.
-/

namespace Squash.Vfd

open Picture

/-- A pixel. The documented shades are 0 (black), 1 (dim), 2 (medium) and 3 (bright). -/
abbrev Shade := BitVec 4

abbrev Buffer := Vector (BitVec 8) 2048

abbrev Point := Int × Int

def vfdWidth : Int := 128

def vfdHeight : Int := 32

def vfdBytesPerScanline : Int := 64

/-! ## Bytes -/

def maskLoNybble : BitVec 8 := 0x0F

def maskHiNybble : BitVec 8 := 0xF0

variable {buffer : Buffer} {k x y : Int} {shade : Shade}

/-- `buffer[k]`, changed by `f`. -/
def modify (buffer : Buffer) (k : Int) (f : BitVec 8 → BitVec 8) : Option Buffer :=
  if h : 0 ≤ k ∧ k.toNat < 2048 then some (buffer.set k.toNat (f buffer[k.toNat])) else none

/-- The left pixel of a byte: `*buffer &= MASK_HI_NYBBLE; *buffer |= shade;`. -/
def putLo (buffer : Buffer) (k : Int) (shade : Shade) : Option Buffer :=
  modify buffer k fun b => (b &&& maskHiNybble) ||| shade.setWidth 8

/-- The right pixel of a byte: `*buffer &= MASK_LO_NYBBLE; *buffer |= (shade << 4);`. -/
def putHi (buffer : Buffer) (k : Int) (shade : Shade) : Option Buffer :=
  modify buffer k fun b => (b &&& maskLoNybble) ||| (shade.setWidth 8 <<< 4)

/-- Both pixels of a byte: `*buffer = shade | (shade << 4);`. -/
def putBoth (buffer : Buffer) (k : Int) (shade : Shade) : Option Buffer :=
  modify buffer k fun _ => shade.setWidth 8 ||| (shade.setWidth 8 <<< 4)

/-- The byte at an offset. -/
def byteAt (buffer : Buffer) (k : Int) : BitVec 8 := buffer[k.toNat]?.getD 0

theorem modify_spec (buffer : Buffer) (f : BitVec 8 → BitVec 8) (h0 : 0 ≤ k) (h1 : k < 2048) :
    ∃ buffer', modify buffer k f = some buffer' ∧
      ∀ j, 0 ≤ j → byteAt buffer' j = if j = k then f (byteAt buffer k) else byteAt buffer j := by
  have hk : k.toNat < 2048 := by omega
  refine ⟨buffer.set k.toNat (f buffer[k.toNat]), dif_pos ⟨h0, hk⟩, ?_⟩
  intro j hj
  have hjk : k.toNat = j.toNat ↔ j = k := by omega
  simp only [byteAt, Vector.getElem?_set, hjk]
  split
  · simp [hk]
  · rfl

/-! ## Nybbles -/

def loNybble (b : BitVec 8) : Shade := b.extractLsb' 0 4

def hiNybble (b : BitVec 8) : Shade := b.extractLsb' 4 4

theorem loNybble_putLo (b : BitVec 8) (shade : Shade) :
    loNybble ((b &&& maskHiNybble) ||| shade.setWidth 8) = shade := by
  ext i hi
  interval_cases i <;> simp [loNybble, maskHiNybble]

theorem hiNybble_putLo (b : BitVec 8) (shade : Shade) :
    hiNybble ((b &&& maskHiNybble) ||| shade.setWidth 8) = hiNybble b := by
  ext i hi
  interval_cases i <;> simp [hiNybble, maskHiNybble]

theorem loNybble_putHi (b : BitVec 8) (shade : Shade) :
    loNybble ((b &&& maskLoNybble) ||| (shade.setWidth 8 <<< 4)) = loNybble b := by
  ext i hi
  interval_cases i <;> simp [loNybble, maskLoNybble]

theorem hiNybble_putHi (b : BitVec 8) (shade : Shade) :
    hiNybble ((b &&& maskLoNybble) ||| (shade.setWidth 8 <<< 4)) = shade := by
  ext i hi
  interval_cases i <;> simp [hiNybble, maskLoNybble]

theorem loNybble_putBoth (shade : Shade) :
    loNybble (shade.setWidth 8 ||| (shade.setWidth 8 <<< 4)) = shade := by
  ext i hi
  interval_cases i <;> simp [loNybble]

theorem hiNybble_putBoth (shade : Shade) :
    hiNybble (shade.setWidth 8 ||| (shade.setWidth 8 <<< 4)) = shade := by
  ext i hi
  interval_cases i <;> simp [hiNybble]

/-! ## The canvas -/

/-- The byte that holds the pixel at `x`, `y`. -/
def byteOffset (x y : Int) : Int := y * 64 + x / 2

/-- The pixel of a byte that an x-coordinate asks for. -/
def nybble (x : Int) (b : BitVec 8) : Shade := if x % 2 = 0 then loNybble b else hiNybble b

def pixel (buffer : Buffer) (q : Point) : Shade :=
  nybble q.1 (byteAt buffer (byteOffset q.1 q.2))

/-- The points from `xLeft` to `xRight` and from `yTop` to `yBottom`, the ends excluded. -/
def rect (xLeft yTop xRight yBottom : Int) : Set Point :=
  {q | (xLeft ≤ q.1 ∧ q.1 < xRight) ∧ yTop ≤ q.2 ∧ q.2 < yBottom}

def screen : Canvas Buffer Point Shade where
  valid := rect 0 0 vfdWidth vfdHeight
  pixel := pixel

theorem mem_screen {q : Point} :
    q ∈ screen.valid ↔ (0 ≤ q.1 ∧ q.1 < 128) ∧ 0 ≤ q.2 ∧ q.2 < 32 := Iff.rfl

/-- A change of one byte draws the pixels of it that get the shade, if it keeps the others. -/
theorem draws_modify {f : BitVec 8 → BitVec 8} {region : Set Point} (hk : 0 ≤ k ∧ k < 2048)
    (hregion : ∀ q ∈ region, byteOffset q.1 q.2 = k ∧ ∀ b, nybble q.1 (f b) = shade)
    (hrest : ∀ q ∈ screen.valid, q ∉ region → byteOffset q.1 q.2 = k →
      ∀ b, nybble q.1 (f b) = nybble q.1 b) :
    Draws screen (modify buffer k f) buffer (fill region shade) := by
  obtain ⟨buffer', hmodify, hbyte⟩ := modify_spec buffer f hk.1 hk.2
  refine ⟨buffer', hmodify, ?_⟩
  intro q hq
  have hoffset : 0 ≤ byteOffset q.1 q.2 := by
    have hq := mem_screen.mp hq
    unfold byteOffset
    omega
  show nybble q.1 (byteAt buffer' (byteOffset q.1 q.2)) = _
  rw [hbyte _ hoffset]
  by_cases hmem : q ∈ region
  · obtain ⟨hsame, hshade⟩ := hregion q hmem
    rw [fill_of_mem hmem, if_pos hsame, hshade]
    rfl
  · rw [fill_of_notMem hmem]
    split
    · next hsame => rw [hrest q hq hmem hsame, ← hsame]; rfl
    · rfl

theorem draws_putLo (hq : (x, y) ∈ screen.valid) (hx : x % 2 = 0) :
    Draws screen (putLo buffer (byteOffset x y) shade) buffer (fill {(x, y)} shade) := by
  have hq := mem_screen.mp hq
  refine draws_modify (by unfold byteOffset; omega) ?_ ?_
  · rintro _ rfl
    exact ⟨rfl, fun b => (if_pos hx).trans (loNybble_putLo b shade)⟩
  · rintro ⟨x', y'⟩ hq' hne hsame b
    have hq' := mem_screen.mp hq'
    simp only [Set.mem_singleton_iff, Prod.mk.injEq, byteOffset] at hne hsame hq' hq
    have hodd : ¬ x' % 2 = 0 := by omega
    rw [nybble, nybble, if_neg hodd, if_neg hodd, hiNybble_putLo]

theorem draws_putHi (hq : (x, y) ∈ screen.valid) (hx : x % 2 = 1) :
    Draws screen (putHi buffer (byteOffset x y) shade) buffer (fill {(x, y)} shade) := by
  have hq := mem_screen.mp hq
  refine draws_modify (by unfold byteOffset; omega) ?_ ?_
  · rintro _ rfl
    exact ⟨rfl, fun b => (if_neg (by omega)).trans (hiNybble_putHi b shade)⟩
  · rintro ⟨x', y'⟩ hq' hne hsame b
    have hq' := mem_screen.mp hq'
    simp only [Set.mem_singleton_iff, Prod.mk.injEq, byteOffset] at hne hsame hq' hq
    have heven : x' % 2 = 0 := by omega
    rw [nybble, nybble, if_pos heven, if_pos heven, loNybble_putHi]

theorem draws_putBoth (hq : (x, y) ∈ screen.valid) (hx : x % 2 = 0) :
    Draws screen (putBoth buffer (byteOffset x y) shade) buffer
      (fill {(x, y), (x + 1, y)} shade) := by
  have hq := mem_screen.mp hq
  refine draws_modify (by unfold byteOffset; omega) ?_ ?_
  · rintro q (rfl | rfl)
    · exact ⟨rfl, fun b => (if_pos hx).trans (loNybble_putBoth shade)⟩
    · refine ⟨by simp only [byteOffset]; omega, fun b => ?_⟩
      exact (if_neg (by simp only; omega)).trans (hiNybble_putBoth shade)
  · rintro ⟨x', y'⟩ hq' hne hsame b
    have hq' := mem_screen.mp hq'
    simp only [Set.mem_insert_iff, Set.mem_singleton_iff, Prod.mk.injEq, byteOffset]
      at hne hsame hq' hq
    omega

/-! ## Points -/

def vfdlibDrawPointUnclipped (buffer : Buffer) (xPos yPos : Int) (shade : Shade) : Option Buffer :=
  if xPos % 2 = 1 then putHi buffer (byteOffset xPos yPos) shade
  else putLo buffer (byteOffset xPos yPos) shade

theorem draws_point (hq : (x, y) ∈ screen.valid) :
    Draws screen (vfdlibDrawPointUnclipped buffer x y shade) buffer (fill {(x, y)} shade) := by
  unfold vfdlibDrawPointUnclipped
  split
  · next hodd => exact draws_putHi hq hodd
  · next heven => exact draws_putLo hq (by omega)

/-! ## A place in the buffer -/

/-- A pointer into the buffer, and which pixel of the byte is meant. -/
structure Dest where
  offset : Int
  pixelPos : Int
  deriving DecidableEq, Repr

def Dest.at (x y : Int) : Dest := ⟨byteOffset x y, x % 2⟩

/-- One to the right. -/
def Dest.next (dest : Dest) : Dest :=
  if dest.pixelPos + 1 > 1 then ⟨dest.offset + 1, 0⟩ else ⟨dest.offset, dest.pixelPos + 1⟩

def Dest.put (dest : Dest) (buffer : Buffer) (shade : Shade) : Option Buffer :=
  if dest.pixelPos = 0 then putLo buffer dest.offset shade else putHi buffer dest.offset shade

@[simp] theorem Dest.next_at : (Dest.at x y).next = Dest.at (x + 1) y := by
  show (if x % 2 + 1 > 1 then Dest.mk (y * 64 + x / 2 + 1) 0 else ⟨y * 64 + x / 2, x % 2 + 1⟩) =
    ⟨y * 64 + (x + 1) / 2, (x + 1) % 2⟩
  obtain heven | hodd := Int.emod_two_eq x
  · rw [if_neg (by omega), Dest.mk.injEq]
    omega
  · rw [if_pos (by omega), Dest.mk.injEq]
    omega

theorem draws_put (hq : (x, y) ∈ screen.valid) :
    Draws screen ((Dest.at x y).put buffer shade) buffer (fill {(x, y)} shade) := by
  unfold Dest.put Dest.at
  split
  · next heven => exact draws_putLo hq heven
  · next hodd => exact draws_putHi hq (by simp only at hodd; omega)

end Squash.Vfd
