import SeedLink.Lib.Bytes

/-!
# Mutable byte arrays

A byte array is a size and the byte in each cell; slices stop at its end.
-/

structure Bytearray where
  size : Nat
  get : Nat → UInt8

namespace Bytearray

def zeros (n : Nat) : Bytearray := ⟨n, fun _ => 0⟩

/-- `b[i:j]`. -/
def slice (b : Bytearray) (i j : Nat) : Bytes := (List.range' i (min j b.size - i)).map b.get

/-- `b[i:i + len(data)] = data`. -/
def write (b : Bytearray) (i : Nat) (data : Bytes) : Bytearray :=
  { b with get := fun k => if i ≤ k ∧ k < i + data.length then data.getD (k - i) 0 else b.get k }

/-- `b.find(pat, i, j)`. -/
def find (b : Bytearray) (pat : Bytes) (i j : Nat) : Option Nat :=
  (Text.findSub pat (b.slice i j)).map (· + i)

variable {b : Bytearray} {i j n : Nat} {data : Bytes}

@[simp] theorem size_zeros : (zeros n).size = n := rfl

@[simp] theorem size_write : (b.write i data).size = b.size := rfl

theorem length_slice (h : j ≤ b.size) : (b.slice i j).length = j - i := by
  simp [slice, Nat.min_eq_left h]

theorem getElem?_slice (h : j ≤ b.size) {k : Nat} (hk : k < j - i) :
    (b.slice i j)[k]? = some (b.get (i + k)) := by
  simp [slice, Nat.min_eq_left h, hk]

theorem slice_take (h : j ≤ b.size) (hn : i + n ≤ j) : (b.slice i j).take n = b.slice i (i + n) := by
  have h1 : i + n - i = n := by omega
  simp only [slice, Nat.min_eq_left h, Nat.min_eq_left (Nat.le_trans hn h), ← List.map_take, h1]
  rw [List.take_range'_of_length_ge (by omega)]

theorem slice_drop (h : j ≤ b.size) : (b.slice i j).drop n = b.slice (i + n) j := by
  have h1 : j - i - n = j - (i + n) := by omega
  simp only [slice, Nat.min_eq_left h, ← List.map_drop, List.drop_range', Nat.mul_one, h1]

theorem slice_self : b.slice i i = [] := by
  have : min i b.size - i = 0 := by omega
  simp [slice, this]

theorem slice_write_of_le (h : j ≤ i) : (b.write i data).slice n j = b.slice n j := by
  simp only [slice, size_write]
  refine List.map_congr_left fun k hk => ?_
  have := List.mem_range'_1.1 hk
  have hk' : ¬ (i ≤ k ∧ k < i + data.length) := by omega
  simp only [write, hk', if_false]

theorem slice_write_self (h : i + data.length ≤ b.size) :
    (b.write i data).slice i (i + data.length) = data := by
  apply List.ext_getElem?
  intro k
  by_cases hk : k < data.length
  · rw [getElem?_slice (by simpa using h) (by omega)]
    have h1 : i ≤ i + k ∧ i + k < i + data.length := by omega
    simp [write, h1.2, hk]
  · rw [List.getElem?_eq_none (by rw [length_slice (by simpa using h)]; omega),
      List.getElem?_eq_none (by omega)]

theorem slice_append (hij : i ≤ j) (hjn : j ≤ n) (hn : n ≤ b.size) :
    b.slice i j ++ b.slice j n = b.slice i n := by
  have h1 := slice_take (b := b) (i := i) (n := j - i) hn (by omega)
  have h2 := slice_drop (b := b) (i := i) (n := j - i) hn
  rw [Nat.add_sub_cancel' hij] at h1 h2
  rw [← h1, ← h2, List.take_append_drop]

/-- Writing behind the cells of a slice extends it. -/
theorem slice_write_append (hij : i ≤ j) (h : j + data.length ≤ b.size) :
    (b.write j data).slice i (j + data.length) = b.slice i j ++ data := by
  rw [← slice_append (n := j + data.length) hij (by omega) (by simpa using h),
    slice_write_of_le (Nat.le_refl j), slice_write_self h]

end Bytearray
