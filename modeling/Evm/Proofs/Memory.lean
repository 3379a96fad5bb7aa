import Mathlib.Order.Bounds.Basic
import Evm.Gas.Schedule
import Evm.Memory
import Evm.Proofs.Bytes

/-! # Memory as an endless array

    Memory behaves like an array of bytes that has no end and holds zeros at
    first. Growth does not show in what is read from it. It shows in the size
    alone, and the size is the least number of whole words that covers every
    range, not empty, that was touched.

    The relation between the two is `Memory.Holds`. Every update keeps it
    (`Update.perform_holds`), and moves the size by the ranges that it touches
    (`Update.words_perform_le`); for a run of updates both follow by induction
    on the run (`memory_is_endless_array`).

    Positions and lengths are bounded: the sum of two of them has to be a
    number that 64 bits hold.
-/

namespace Evm.Memory

/-! ## Updates -/

/-- An operation that may change memory. -/
inductive Update where
  | resize (offset len : Nat)
  | store (offset : Nat) (b : Bytes)
  | storeWord (offset : Nat) (w : Word)
  | storeByte (offset : Nat) (x : UInt8)
  | storePadded (offset len : Nat) (source : Bytes) (sourceOffset : Nat)
  | copyWithin (dest source len : Nat)
  deriving DecidableEq

namespace Update

/-- Carry out an update. -/
def perform : Update → Memory → Memory
  | resize offset len, m => m.resize offset len
  | store offset b, m => m.store offset b
  | storeWord offset w, m => m.storeWord offset w
  | storeByte offset x, m => m.storeByte offset x
  | storePadded offset len source sourceOffset, m => m.storePadded offset len source sourceOffset
  | copyWithin dest source len, m => m.copyWithin dest source len

/-- The ranges that an update touches, each an offset and a length. -/
def ranges : Update → List (Nat × Nat)
  | resize offset len => [(offset, len)]
  | store offset b => [(offset, b.size)]
  | storeWord offset _ => [(offset, 32)]
  | storeByte offset _ => [(offset, 1)]
  | storePadded offset len _ _ => [(offset, len)]
  | copyWithin dest source len => [(dest, len), (source, len)]

/-- Carry out some updates, one after another. -/
def performAll (updates : List Update) (m : Memory) : Memory :=
  updates.foldl (fun m u => u.perform m) m

end Update

/-! ## The endless array -/

/-- The array with `len` cells from `offset` on replaced. -/
def splice (a : Nat → UInt8) (offset len : Nat) (new : Nat → UInt8) : Nat → UInt8 :=
  fun i => if offset ≤ i ∧ i < offset + len then new (i - offset) else a i

/-- What an update does to the array. A copy takes all its bytes from the array
    as it was before. -/
def Update.onArray : Update → (Nat → UInt8) → (Nat → UInt8)
  | resize _ _, a => a
  | store offset b, a => splice a offset b.size fun i => Bytes.byteAt b i
  | storeWord offset w, a => splice a offset 32 fun i => UInt8.ofNat (w.toNat / 256 ^ (31 - i))
  | storeByte offset x, a => splice a offset 1 fun _ => x
  | storePadded offset len source sourceOffset, a =>
    splice a offset len fun i => Bytes.byteAt source (sourceOffset + i)
  | copyWithin dest source len, a => splice a dest len fun i => a (source + i)

/-- What a run of updates does to it. -/
def Update.allOnArray (updates : List Update) (a : Nat → UInt8) : Nat → UInt8 :=
  updates.foldl (fun a u => u.onArray a) a

/-- Memory of whole words that holds what the array holds; past its end that is
    zero. -/
structure Holds (m : Memory) (a : Nat → UInt8) : Prop where
  whole : m.size % 32 = 0
  cells : ∀ i, Bytes.byteAt m.data i = a i

/-! ## Growth -/

/-- The sum of the two is a number that 64 bits hold. -/
def Bounded (offset len : Nat) : Prop := offset + len ≤ Word.maxUInt64

variable {m : Memory} {offset len : Nat}

theorem size_resize (hbound : Bounded offset len) :
    (m.resize offset len).size =
      if len = 0 then m.size else max m.size (32 * Gas.words (offset + len)) := by
  have hcap : min (offset + len) Word.maxUInt64 = offset + len := Nat.min_eq_left hbound
  have hwords : (offset + len + 31) / 32 * 32 = 32 * Gas.words (offset + len) := Nat.mul_comm _ _
  unfold resize
  by_cases hempty : len = 0
  · rw [if_pos hempty, if_pos hempty]
  · simp only [if_neg hempty, hcap, hwords, size]
    by_cases hgrows : m.data.size < 32 * Gas.words (offset + len)
    · rw [if_pos hgrows, ByteArray.size_append, Bytes.size_zeros]
      omega
    · rw [if_neg hgrows]
      omega

/-- New cells hold zero, as they did before. -/
theorem byteAt_resize (m : Memory) (offset len i : Nat) :
    Bytes.byteAt (m.resize offset len).data i = Bytes.byteAt m.data i := by
  unfold resize
  simp only
  split
  · rfl
  · split
    · exact Bytes.byteAt_append_zeros _ _ _
    · rfl

theorem whole_resize (hbound : Bounded offset len) (hwhole : m.size % 32 = 0) :
    (m.resize offset len).size % 32 = 0 := by
  rw [size_resize hbound]
  split <;> omega

theorem resize_covers (hbound : Bounded offset len) (hlen : len ≠ 0) :
    offset + len ≤ (m.resize offset len).size := by
  have hwords : offset + len ≤ 32 * Gas.words (offset + len) := by
    unfold Gas.words
    omega
  rw [size_resize hbound, if_neg hlen]
  exact hwords.trans (Nat.le_max_right _ _)

/-- The size after a resize is the least that covers the range. -/
theorem words_resize_le (hbound : Bounded offset len) (hwhole : m.size % 32 = 0) (w : Nat) :
    (m.resize offset len).words ≤ w ↔
      m.words ≤ w ∧ (0 < len → offset + len ≤ 32 * w) := by
  have hresized : (m.resize offset len).words = (m.resize offset len).size / 32 := rfl
  have hwords : m.words = m.size / 32 := rfl
  rw [hresized, hwords, size_resize hbound]
  unfold Gas.words
  split <;> omega

/-- A range that is covered makes no memory grow. -/
theorem resize_of_covered (hwhole : m.size % 32 = 0) (hinside : offset + len ≤ m.size) :
    m.resize offset len = m := by
  have hsize : m.data.size = m.size := rfl
  unfold resize
  simp only
  split
  · rfl
  · rw [if_neg]
    omega

/-! ## Writing -/

theorem size_store {b : Bytes} (hbound : Bounded offset b.size) :
    (m.store offset b).size = (m.resize offset b.size).size := by
  unfold store
  by_cases hempty : b.size = 0
  · rw [if_pos hempty, resize, if_pos hempty]
  · rw [if_neg hempty]
    exact Bytes.size_copySlice _ _ (resize_covers hbound hempty)

theorem byteAt_store {b : Bytes} (hbound : Bounded offset b.size) (i : Nat) :
    Bytes.byteAt (m.store offset b).data i =
      splice (Bytes.byteAt m.data) offset b.size (Bytes.byteAt b) i := by
  unfold store splice
  by_cases hempty : b.size = 0
  · rw [if_pos hempty, if_neg (by omega)]
  · have hcovers := resize_covers (m := m) hbound hempty
    have hoffset : offset ≤ (m.resize offset b.size).data.size :=
      (Nat.le_add_right _ _).trans hcovers
    simp only [if_neg hempty]
    rw [Bytes.byteAt_copySlice _ _ hoffset, byteAt_resize]

/-- What is stored inside makes no memory grow. -/
theorem size_store_of_covered {b : Bytes} (hwhole : m.size % 32 = 0)
    (hinside : offset + b.size ≤ m.size) : (m.store offset b).size = m.size := by
  unfold store
  by_cases hempty : b.size = 0
  · rw [if_pos hempty]
  · simp only [if_neg hempty, resize_of_covered hwhole hinside]
    exact Bytes.size_copySlice _ _ hinside

theorem size_slice (hinside : offset + len ≤ m.size) : (m.slice offset len).size = len := by
  have hsize : m.data.size = m.size := rfl
  rw [slice, ByteArray.size_extract]
  omega

/-- A copy inside memory makes it grow no more. -/
theorem size_store_slice {dest source : Nat} (hwhole : m.size % 32 = 0)
    (hinside : max dest source + len ≤ m.size) :
    (m.store dest (m.slice source len)).size = m.size := by
  have hslice : (m.slice source len).size = len := size_slice (by omega)
  exact size_store_of_covered hwhole (by omega)

theorem size_copyWithin_of_covered {dest source : Nat} (hwhole : m.size % 32 = 0)
    (hinside : max dest source + len ≤ m.size) : (m.copyWithin dest source len).size = m.size := by
  unfold copyWithin
  by_cases hempty : len = 0
  · rw [if_pos hempty]
  · simp only [if_neg hempty, resize_of_covered hwhole hinside]
    exact size_store_slice hwhole hinside

/-- A copy covers both its ranges. -/
theorem size_copyWithin {dest source : Nat} (hbound : Bounded (max dest source) len)
    (hwhole : m.size % 32 = 0) :
    (m.copyWithin dest source len).size = (m.resize (max dest source) len).size := by
  unfold copyWithin
  by_cases hempty : len = 0
  · rw [if_pos hempty, resize, if_pos hempty]
  · simp only [if_neg hempty]
    exact size_store_slice (whole_resize hbound hwhole) (resize_covers hbound hempty)

theorem byteAt_copyWithin {dest source : Nat} (hbound : Bounded (max dest source) len) (i : Nat) :
    Bytes.byteAt (m.copyWithin dest source len).data i =
      splice (Bytes.byteAt m.data) dest len (fun k => Bytes.byteAt m.data (source + k)) i := by
  unfold copyWithin
  by_cases hempty : len = 0
  · rw [if_pos hempty, splice, if_neg (by omega)]
  · have hcovers := resize_covers (m := m) hbound hempty
    have hslice : ((m.resize (max dest source) len).slice source len).size = len :=
      size_slice (by omega)
    have hdest : Bounded dest len := (Nat.add_le_add_right (Nat.le_max_left _ _) _).trans hbound
    simp only [if_neg hempty]
    rw [byteAt_store (by rwa [hslice]), hslice]
    unfold splice
    by_cases hin : dest ≤ i ∧ i < dest + len
    · -- the bytes of the slice are those of the memory before the copy
      rw [if_pos hin, if_pos hin, slice, Bytes.byteAt_extract, if_pos (by omega), byteAt_resize]
    · rw [if_neg hin, if_neg hin, byteAt_resize]

/-! ## One update -/

namespace Update

/-- The ranges of the update end within 64 bits. -/
def Fits (u : Update) : Prop := ∀ r ∈ u.ranges, Bounded r.1 r.2

/-- Positions and lengths of at most eight gigabytes. -/
def Small (u : Update) : Prop := ∀ r ∈ u.ranges, r.1 ≤ 2 ^ 33 ∧ r.2 ≤ 2 ^ 33

instance (u : Update) : Decidable u.Small :=
  inferInstanceAs (Decidable (∀ r ∈ u.ranges, r.1 ≤ 2 ^ 33 ∧ r.2 ≤ 2 ^ 33))

variable {u : Update} {m : Memory} {a : Nat → UInt8}

theorem Small.fits (h : u.Small) : u.Fits := by
  intro r hr
  obtain ⟨hoffset, hlen⟩ := h r hr
  unfold Bounded Word.maxUInt64
  omega

/-- Updates whose ranges are one range. -/
theorem bounded_of_single {offset len : Nat} (h : u.Fits) (hranges : u.ranges = [(offset, len)]) :
    Bounded offset len :=
  h (offset, len) (by rw [hranges]; exact List.mem_singleton_self _)

/-- Where a copy comes from and where it goes, as one range at the higher of
    the two. -/
theorem bounded_of_copy {dest source len : Nat} (h : u.Fits)
    (hranges : u.ranges = [(dest, len), (source, len)]) : Bounded (max dest source) len := by
  unfold Fits at h
  rw [hranges, List.forall_mem_cons, List.forall_mem_singleton] at h
  unfold Bounded at *
  omega

/-- The bytes of a word, and nothing past them. -/
theorem splice_toBytes (a : Nat → UInt8) (offset : Nat) (w : Word) :
    splice a offset w.toBytes.size (Bytes.byteAt w.toBytes) =
      splice a offset 32 fun i => UInt8.ofNat (w.toNat / 256 ^ (31 - i)) := by
  funext i
  unfold splice Word.toBytes
  rw [Bytes.size_ofNumber]
  by_cases hin : offset ≤ i ∧ i < offset + 32
  · rw [if_pos hin, if_pos hin, Bytes.byteAt_ofNumber (by omega)]
  · rw [if_neg hin, if_neg hin]

theorem splice_window (a : Nat → UInt8) (offset len : Nat) (source : Bytes) (sourceOffset : Nat) :
    splice a offset (Bytes.window source sourceOffset len).size
        (Bytes.byteAt (Bytes.window source sourceOffset len)) =
      splice a offset len fun i => Bytes.byteAt source (sourceOffset + i) := by
  funext i
  unfold splice
  rw [Bytes.size_window]
  by_cases hin : offset ≤ i ∧ i < offset + len
  · rw [if_pos hin, if_pos hin, Bytes.byteAt_window, if_pos (by omega)]
  · rw [if_neg hin, if_neg hin]

theorem splice_singleton (a : Nat → UInt8) (offset : Nat) (x : UInt8) :
    splice a offset (Bytes.ofList [x]).size (Bytes.byteAt (Bytes.ofList [x])) =
      splice a offset 1 fun _ => x := by
  have hsize : (Bytes.ofList [x]).size = 1 := rfl
  funext i
  unfold splice
  rw [hsize]
  by_cases hin : offset ≤ i ∧ i < offset + 1
  · have hfirst : i - offset = 0 := by omega
    rw [if_pos hin, if_pos hin, Bytes.byteAt_ofList, hfirst]
    rfl
  · rw [if_neg hin, if_neg hin]

@[simp] theorem perform_storeWord (offset : Nat) (w : Word) :
    (storeWord offset w).perform m = m.store offset w.toBytes := rfl

@[simp] theorem perform_storeByte (offset : Nat) (x : UInt8) :
    (storeByte offset x).perform m = m.store offset (Bytes.ofList [x]) := rfl

@[simp] theorem perform_storePadded (offset len : Nat) (source : Bytes) (sourceOffset : Nat) :
    (storePadded offset len source sourceOffset).perform m =
      m.store offset (Bytes.window source sourceOffset len) := rfl

/-- What an update writes is what it does to the array. -/
theorem byteAt_perform (hfits : u.Fits) (m : Memory) :
    Bytes.byteAt (u.perform m).data = u.onArray (Bytes.byteAt m.data) := by
  cases u with
  | resize offset len =>
    funext i
    exact byteAt_resize m offset len i
  | store offset b =>
    funext i
    exact byteAt_store (bounded_of_single hfits rfl) i
  | storeWord offset w =>
    have hbound : Bounded offset w.toBytes.size := by
      rw [Word.toBytes, Bytes.size_ofNumber]
      exact bounded_of_single hfits rfl
    rw [perform_storeWord, onArray, ← splice_toBytes]
    funext i
    exact byteAt_store hbound i
  | storeByte offset x =>
    rw [perform_storeByte, onArray, ← splice_singleton]
    funext i
    exact byteAt_store (bounded_of_single hfits rfl) i
  | storePadded offset len source sourceOffset =>
    have hbound : Bounded offset (Bytes.window source sourceOffset len).size := by
      rw [Bytes.size_window]
      exact bounded_of_single hfits rfl
    rw [perform_storePadded, onArray, ← splice_window]
    funext i
    exact byteAt_store hbound i
  | copyWithin dest source len =>
    funext i
    exact byteAt_copyWithin (bounded_of_copy hfits rfl) i

/-- As far as sizes go, there are three kinds of updates: to grow, to store some
    bytes, and to copy. -/
theorem perform_cases (u : Update) :
    (∃ offset len, u.ranges = [(offset, len)] ∧ ∀ m, u.perform m = m.resize offset len) ∨
    (∃ offset b, u.ranges = [(offset, b.size)] ∧ ∀ m, u.perform m = m.store offset b) ∨
    ∃ dest source len, u.ranges = [(dest, len), (source, len)] ∧
      ∀ m, u.perform m = m.copyWithin dest source len := by
  cases u with
  | resize offset len => exact .inl ⟨offset, len, rfl, fun _ => rfl⟩
  | store offset b => exact .inr (.inl ⟨offset, b, rfl, fun _ => rfl⟩)
  | storeWord offset w =>
    have hsize : w.toBytes.size = 32 := Bytes.size_ofNumber _ _
    exact .inr (.inl ⟨offset, w.toBytes, by rw [hsize, ranges],
      fun _ => perform_storeWord offset w⟩)
  | storeByte offset x =>
    exact .inr (.inl ⟨offset, Bytes.ofList [x], rfl, fun _ => perform_storeByte offset x⟩)
  | storePadded offset len source sourceOffset =>
    have hsize : (Bytes.window source sourceOffset len).size = len := Bytes.size_window _ _ _
    exact .inr (.inl ⟨offset, Bytes.window source sourceOffset len, by rw [hsize, ranges],
      fun _ => perform_storePadded offset len source sourceOffset⟩)
  | copyWithin dest source len => exact .inr (.inr ⟨dest, source, len, rfl, fun _ => rfl⟩)

/-- The size after an update is that after a resize to some range, which is as
    high as the ranges of the update. -/
theorem size_perform (hfits : u.Fits) (hwhole : m.size % 32 = 0) :
    ∃ offset len, Bounded offset len ∧
      (u.perform m).size = (m.resize offset len).size ∧
      ∀ n, (0 < len → offset + len ≤ n) ↔ ∀ r ∈ u.ranges, 0 < r.2 → r.1 + r.2 ≤ n := by
  rcases u.perform_cases with ⟨offset, len, hranges, hperform⟩ | ⟨offset, b, hranges, hperform⟩ |
    ⟨dest, source, len, hranges, hperform⟩
  · refine ⟨offset, len, bounded_of_single hfits hranges, by rw [hperform], fun n => ?_⟩
    rw [hranges, List.forall_mem_singleton]
  · have hbound : Bounded offset b.size := bounded_of_single hfits hranges
    refine ⟨offset, b.size, hbound, by rw [hperform, size_store hbound], fun n => ?_⟩
    rw [hranges, List.forall_mem_singleton]
  · have hbound : Bounded (max dest source) len := bounded_of_copy hfits hranges
    refine ⟨max dest source, len, hbound, by rw [hperform, size_copyWithin hbound hwhole],
      fun n => ?_⟩
    rw [hranges, List.forall_mem_cons, List.forall_mem_singleton]
    omega

/-- **An update keeps memory and array alike.** -/
theorem perform_holds (hfits : u.Fits) (h : m.Holds a) : (u.perform m).Holds (u.onArray a) := by
  constructor
  · obtain ⟨offset, len, hbound, hsize, _⟩ := size_perform hfits h.whole
    rw [hsize]
    exact whole_resize hbound h.whole
  · have hcells : Bytes.byteAt m.data = a := funext h.cells
    intro i
    rw [byteAt_perform hfits, hcells]

/-- The size after an update is the least that covers its ranges as well. -/
theorem words_perform_le (hfits : u.Fits) (hwhole : m.size % 32 = 0) (w : Nat) :
    (u.perform m).words ≤ w ↔
      m.words ≤ w ∧ ∀ r ∈ u.ranges, 0 < r.2 → r.1 + r.2 ≤ 32 * w := by
  obtain ⟨offset, len, hbound, hsize, hranges⟩ := size_perform hfits hwhole
  have hwords : (u.perform m).words = (m.resize offset len).words := congrArg (· / 32) hsize
  rw [hwords, words_resize_le hbound hwhole, hranges]

/-- An update whose ranges are covered makes no memory grow. -/
theorem size_perform_of_covered (hwhole : m.size % 32 = 0)
    (hinside : ∀ r ∈ u.ranges, r.1 + r.2 ≤ m.size) : (u.perform m).size = m.size := by
  rcases u.perform_cases with ⟨offset, len, hranges, hperform⟩ | ⟨offset, b, hranges, hperform⟩ |
    ⟨dest, source, len, hranges, hperform⟩
  · rw [hranges, List.forall_mem_singleton] at hinside
    rw [hperform, resize_of_covered hwhole hinside]
  · rw [hranges, List.forall_mem_singleton] at hinside
    rw [hperform, size_store_of_covered hwhole hinside]
  · rw [hranges, List.forall_mem_cons, List.forall_mem_singleton] at hinside
    rw [hperform, size_copyWithin_of_covered hwhole (by omega)]

/-! ## Runs of updates -/

theorem performAll_holds {updates : List Update} (hfits : ∀ u ∈ updates, u.Fits)
    (h : m.Holds a) : (performAll updates m).Holds (allOnArray updates a) := by
  induction updates generalizing m a with
  | nil => exact h
  | cons u later ih =>
    have hlater : ∀ v ∈ later, v.Fits := fun v hv => hfits v (List.mem_cons_of_mem _ hv)
    exact ih hlater (perform_holds (hfits u List.mem_cons_self) h)

theorem words_performAll_le {updates : List Update} (hfits : ∀ u ∈ updates, u.Fits)
    (h : m.Holds a) (w : Nat) :
    (performAll updates m).words ≤ w ↔
      m.words ≤ w ∧ ∀ u ∈ updates, ∀ r ∈ u.ranges, 0 < r.2 → r.1 + r.2 ≤ 32 * w := by
  induction updates generalizing m a with
  | nil => simp [performAll]
  | cons u later ih =>
    have hfirst : u.Fits := hfits u List.mem_cons_self
    have hlater : ∀ v ∈ later, v.Fits := fun v hv => hfits v (List.mem_cons_of_mem _ hv)
    have hrun : performAll (u :: later) m = performAll later (u.perform m) := rfl
    rw [hrun, ih hlater (perform_holds hfirst h), words_perform_le hfirst h.whole, and_assoc,
      List.forall_mem_cons]

end Update

/-! ## Memory and array -/

theorem empty_holds : empty.Holds fun _ => 0 where
  whole := rfl
  cells _ := Bytes.byteAt_of_le _ _ (Nat.zero_le _)

theorem Holds.read {a : Nat → UInt8} (h : m.Holds a) (offset len : Nat) :
    Bytes.toList (m.read offset len) = (List.range len).map fun i => a (offset + i) := by
  rw [Memory.read, Bytes.toList_window]
  exact List.map_congr_left fun i _ => h.cells _

theorem Holds.loadWord {a : Nat → UInt8} (h : m.Holds a) (offset : Nat) :
    (m.loadWord offset).toNat =
      ∑ i ∈ Finset.range 32, (a (offset + i)).toNat * 256 ^ (31 - i) := by
  rw [Memory.loadWord, Memory.read, Word.toNat_ofBytesAt, Bytes.number_window,
    Bytes.number_eq_sum]
  exact Finset.sum_congr rfl fun i _ => by rw [h.cells]

/-- **Memory is an endless array of bytes**, all zero at first. After any run of
    updates with positions and lengths of at most `2 ^ 33`, what is read from
    memory anywhere is what the array holds there, and a word is spelled by 32
    of its cells. The size is that of the least number of words that covers
    every range, not empty, that was touched. -/
theorem memory_is_endless_array (updates : List Update) (hsmall : ∀ u ∈ updates, u.Small) :
    let m := Update.performAll updates empty
    let a := Update.allOnArray updates fun _ => 0
    (∀ offset len, Bytes.toList (m.read offset len) =
      (List.range len).map fun i => a (offset + i)) ∧
    (∀ offset, (m.loadWord offset).toNat =
      ∑ i ∈ Finset.range 32, (a (offset + i)).toNat * 256 ^ (31 - i)) ∧
    m.size = 32 * m.words ∧
    IsLeast {w | ∀ u ∈ updates, ∀ r ∈ u.ranges, 0 < r.2 → r.1 + r.2 ≤ 32 * w} m.words := by
  intro m a
  have hfits : ∀ u ∈ updates, u.Fits := fun u hu => (hsmall u hu).fits
  have hholds : m.Holds a := Update.performAll_holds hfits empty_holds
  have hwords : ∀ w, m.words ≤ w ↔
      ∀ u ∈ updates, ∀ r ∈ u.ranges, 0 < r.2 → r.1 + r.2 ≤ 32 * w := by
    intro w
    have hle := Update.words_performAll_le hfits empty_holds w
    have hstart : empty.words ≤ w := Nat.zero_le w
    rw [hle]
    exact and_iff_right hstart
  refine ⟨hholds.read, hholds.loadWord, ?_, ?_, ?_⟩
  · have hwhole := hholds.whole
    have hsize : m.words = m.size / 32 := rfl
    omega
  · exact (hwords m.words).mp (Nat.le_refl _)
  · intro w hw
    exact (hwords w).mpr hw

/-- A word that crosses the end of a word of memory; a copy onto itself, one
    byte further and from beyond the end; a source that ends too soon; and a
    range that is empty. -/
theorem memory_is_endless_array_overlapping :
    let updates : List Update :=
      [.storeWord 31 0x01020304, .copyWithin 60 59 8, .storePadded 62 3 ⟨#[9, 7]⟩ 1, .resize 500 0]
    let m := Update.performAll updates empty
    (∀ u ∈ updates, u.Small) ∧
      Bytes.toList (m.read 58 8) = [0, 1, 1, 2, 7, 0, 0, 0] ∧
      (m.loadWord 29).toNat = 0x0101 ∧ m.size = 96 := by
  intro updates m
  have hsmall : ∀ u ∈ updates, u.Small := by decide
  obtain ⟨hread, hword, hwhole, hcovers, hleast⟩ := memory_is_endless_array updates hsmall
  have hsize : m.size = 32 * m.words := hwhole
  have hthree : ∀ u ∈ updates, ∀ r ∈ u.ranges, 0 < r.2 → r.1 + r.2 ≤ 32 * 3 := by decide
  have hwords : m.words ≤ 3 := hleast hthree
  have hcopy : 60 + 8 ≤ 32 * m.words :=
    hcovers (.copyWithin 60 59 8) (by decide) (60, 8) (by decide) (by decide)
  refine ⟨hsmall, (hread 58 8).trans (by decide +kernel), (hword 29).trans (by decide +kernel), ?_⟩
  omega

end Evm.Memory
