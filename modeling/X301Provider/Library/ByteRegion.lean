import X301Provider.Library.Bytes

/-!
# Regions of byte arrays

Reading and overwriting a region at an offset. Overwriting the two parts of an
array one after the other leaves their concatenation.
-/

namespace ByteRegion

variable {n a b : ℕ}

def slice (buffer : Bytes n) (offset length : ℕ) (h : offset + length ≤ n := by decide) :
    Bytes length :=
  ⟨(buffer.1.drop offset).take length, by
    rw [List.length_take, List.length_drop, buffer.2]
    omega⟩

/-- Overwrite a region at an offset. -/
def splice (buffer : Bytes n) (offset : ℕ) (region : Bytes a)
    (h : offset + a ≤ n := by decide) : Bytes n :=
  ⟨buffer.1.take offset ++ (region.1 ++ buffer.1.drop (offset + a)), by
    simp only [List.length_append, List.length_take, List.length_drop, region.2, buffer.2]
    omega⟩

/-- Copy an array to the front of the memory behind a pointer. -/
def memcpy (destination : List UInt8) (source : Bytes n) : List UInt8 :=
  source.1 ++ destination.drop n

def concat (x : Bytes a) (y : Bytes b) : Bytes (a + b) :=
  ⟨x.1 ++ y.1, by rw [List.length_append, x.2, y.2]⟩

theorem slice_val (buffer : Bytes n) (offset length : ℕ) (h : offset + length ≤ n) :
    (slice buffer offset length h).1 = (buffer.1.drop offset).take length := rfl

theorem splice_val (buffer : Bytes n) (offset : ℕ) (region : Bytes a) (h : offset + a ≤ n) :
    (splice buffer offset region h).1 =
      buffer.1.take offset ++ (region.1 ++ buffer.1.drop (offset + a)) := rfl

/-- Memory of just the length is overwritten as a whole. -/
theorem memcpy_whole {destination : List UInt8} (source : Bytes n) (h : destination.length = n) :
    memcpy destination source = source.1 := by
  rw [memcpy, List.drop_of_length_le h.le, List.append_nil]

theorem concat_val (x : Bytes a) (y : Bytes b) : (concat x y).1 = x.1 ++ y.1 := rfl

theorem slice_concat_left (x : Bytes a) (y : Bytes b) (h : 0 + a ≤ a + b) :
    slice (concat x y) 0 a h = x := by
  apply Subtype.ext
  rw [slice_val, concat_val, List.drop_zero, List.take_left' x.2]

theorem slice_concat_right (x : Bytes a) (y : Bytes b) (h : a + b ≤ a + b) :
    slice (concat x y) a b h = y := by
  apply Subtype.ext
  rw [slice_val, concat_val, List.drop_left' x.2]
  exact List.take_of_length_le y.2.le

theorem splice_splice (buffer : Bytes (a + b)) (x : Bytes a) (y : Bytes b)
    (h : 0 + a ≤ a + b) (h' : a + b ≤ a + b) :
    splice (splice buffer 0 x h) a y h' = concat x y := by
  have hFirst : (splice buffer 0 x h).1.take a = x.1 := by
    rw [splice_val, List.take_zero, List.nil_append, List.take_left' x.2]
  have hLast : (splice buffer 0 x h).1.drop (a + b) = [] :=
    List.drop_eq_nil_of_le (splice buffer 0 x h).2.le
  apply Subtype.ext
  rw [concat_val, splice_val, hFirst, hLast, List.append_nil]

theorem slice_splice_front (buffer : Bytes n) (x : Bytes a) (h h' : 0 + a ≤ n) :
    slice (splice buffer 0 x h) 0 a h' = x := by
  apply Subtype.ext
  rw [slice_val, splice_val, List.drop_zero, List.take_zero, List.nil_append, List.take_left' x.2]

end ByteRegion
