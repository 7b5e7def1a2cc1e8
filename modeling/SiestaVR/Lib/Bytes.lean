import Mathlib.Data.List.Basic
import Mathlib.Tactic.Ring

/-!
# Byte buffers and their fields

What a hand-written wire format does with a flat buffer.

- `toBe`, `ofBe`: a number as a field of a fixed width, most significant byte
  first. Writing truncates to the width, so reading back gives the remainder.
- `toLe`, `ofLe`: the same with the least significant byte first.
- `lebLength`, `ofLeb`: a number as a field of variable length, seven bits a byte and
  least significant first. Where the field ends shows in its own bytes.
- `slice`, `splice`, `grow`: reading part of a buffer, writing over part of it
  and making it longer. Each comes with the byte it leaves at every position,
  which is all that arguments about overlapping writes need.
- `splice_restore`: a write whose first bytes are put back afterwards is a write
  of the other bytes only.
- `Codec`: values as bytes that are read back whatever follows them.
-/

namespace SiestaVR.Lib

/-! ## Big-endian fields -/

/-- The `w` low bytes of `n`, most significant first. -/
def toBe : Nat → Nat → List UInt8
  | 0, _ => []
  | w + 1, n => UInt8.ofNat (n / 256 ^ w) :: toBe w n

/-- The number a big-endian field stands for. -/
def ofBe (bs : List UInt8) : Nat :=
  bs.foldl (fun n b => n * 256 + b.toNat) 0

@[simp] theorem length_toBe (w n : Nat) : (toBe w n).length = w := by
  induction w with
  | zero => rfl
  | succ w ih => simp [toBe, ih]

theorem foldl_ofBe (bs : List UInt8) (n : Nat) :
    bs.foldl (fun n b => n * 256 + b.toNat) n = n * 256 ^ bs.length + ofBe bs := by
  induction bs generalizing n with
  | nil => simp [ofBe]
  | cons b bs ih =>
    simp only [ofBe, List.foldl_cons, List.length_cons]
    rw [ih, ih (0 * 256 + b.toNat), pow_succ]
    ring

theorem ofBe_cons (b : UInt8) (bs : List UInt8) :
    ofBe (b :: bs) = b.toNat * 256 ^ bs.length + ofBe bs := by
  simpa [ofBe] using foldl_ofBe bs b.toNat

/-- Reading back a field gives the number truncated to the field's width. -/
theorem ofBe_toBe (w n : Nat) : ofBe (toBe w n) = n % 256 ^ w := by
  induction w with
  | zero => simp [toBe, ofBe, Nat.mod_one]
  | succ w ih =>
    have hsplit : n % 256 ^ (w + 1) = n % 256 ^ w + 256 ^ w * (n / 256 ^ w % 256) :=
      Nat.mod_pow_succ
    rw [toBe, ofBe_cons, ih, length_toBe, UInt8.toNat_ofNat', hsplit, Nat.mul_comm, Nat.add_comm]

theorem ofBe_toBe_of_lt {w n : Nat} (h : n < 256 ^ w) : ofBe (toBe w n) = n := by
  rw [ofBe_toBe, Nat.mod_eq_of_lt h]

/-! ## Little-endian fields -/

/-- The `w` low bytes of `n`, least significant first. -/
def toLe (w n : Nat) : List UInt8 := (toBe w n).reverse

/-- The number a little-endian field stands for. -/
def ofLe (bs : List UInt8) : Nat := ofBe bs.reverse

@[simp] theorem length_toLe (w n : Nat) : (toLe w n).length = w := by
  rw [toLe, List.length_reverse, length_toBe]

theorem ofLe_toLe_of_lt {w n : Nat} (h : n < 256 ^ w) : ofLe (toLe w n) = n := by
  rw [ofLe, toLe, List.reverse_reverse, ofBe_toBe_of_lt h]

/-! ## Base-128 fields -/

/-- How many bytes the field at the front takes: it ends with the first byte whose high
bit is clear. `none` if there is no such byte. -/
def lebLength : List UInt8 → Option Nat
  | [] => none
  | b :: bs => if b.toNat < 128 then some 1 else (lebLength bs).map (· + 1)

/-- The number a field stands for. -/
def ofLeb : List UInt8 → Nat
  | [] => 0
  | b :: bs => b.toNat % 128 + 128 * ofLeb bs

theorem lebLength_cons {b : UInt8} {bs : List UInt8} {n : Nat} :
    lebLength (b :: bs) = some n ↔
      b.toNat < 128 ∧ n = 1 ∨ 128 ≤ b.toNat ∧ ∃ m, lebLength bs = some m ∧ n = m + 1 := by
  rw [lebLength]
  split
  · simp only [Option.some.injEq]
    omega
  · simp only [Option.map_eq_some_iff, eq_comm (a := n)]
    grind

theorem lebLength_bounds {bs : List UInt8} {n : Nat} (h : lebLength bs = some n) :
    0 < n ∧ n ≤ bs.length := by
  induction bs generalizing n with
  | nil => cases h
  | cons b bs ih =>
    obtain ⟨-, rfl⟩ | ⟨-, m, hm, rfl⟩ := lebLength_cons.1 h
    · exact ⟨Nat.one_pos, Nat.succ_pos _⟩
    · exact ⟨Nat.succ_pos _, Nat.succ_le_succ (ih hm).2⟩

theorem lebLength_append {bs : List UInt8} {n : Nat} (h : lebLength bs = some n)
    (more : List UInt8) : lebLength (bs ++ more) = some n := by
  induction bs generalizing n with
  | nil => cases h
  | cons b bs ih =>
    obtain ⟨hb, rfl⟩ | ⟨hb, m, hm, rfl⟩ := lebLength_cons.1 h
    · exact lebLength_cons.2 (.inl ⟨hb, rfl⟩)
    · exact lebLength_cons.2 (.inr ⟨hb, m, ih hm, rfl⟩)

theorem lebLength_take {bs : List UInt8} {n : Nat} (h : lebLength bs = some n) :
    lebLength (bs.take n) = some n := by
  induction bs generalizing n with
  | nil => cases h
  | cons b bs ih =>
    obtain ⟨hb, rfl⟩ | ⟨hb, m, hm, rfl⟩ := lebLength_cons.1 h
    · exact lebLength_cons.2 (.inl ⟨hb, rfl⟩)
    · exact lebLength_cons.2 (.inr ⟨hb, m, ih hm, rfl⟩)

theorem ofLeb_lt (bs : List UInt8) : ofLeb bs < 128 ^ bs.length := by
  induction bs with
  | nil => exact Nat.one_pos
  | cons b bs ih =>
    rw [ofLeb, List.length_cons, pow_succ]
    have := Nat.mod_lt b.toNat (show 128 > 0 by decide)
    omega

/-! ## Parts of a buffer -/

variable {α : Type}

/-- `&buf[pos..pos + len]`. -/
def slice (buf : List α) (pos len : Nat) : List α :=
  (buf.drop pos).take len

/-- `buf[pos..pos + new.len()].copy_from_slice(new)`. -/
def splice (buf : List α) (pos : Nat) (new : List α) : List α :=
  buf.take pos ++ new ++ buf.drop (pos + new.length)

/-- `if buf.len() < n { buf.resize(n, a) }`. -/
def grow (buf : List α) (n : Nat) (a : α) : List α :=
  buf ++ List.replicate (n - buf.length) a

theorem length_slice (buf : List α) (pos len : Nat) :
    (slice buf pos len).length = min len (buf.length - pos) := by
  simp [slice]

theorem getElem?_slice (buf : List α) (pos len i : Nat) :
    (slice buf pos len)[i]? = if i < len then buf[pos + i]? else none := by
  simp [slice, List.getElem?_take]

theorem slice_field (before field after : List α) :
    slice (before ++ (field ++ after)) before.length field.length = field := by
  rw [slice, List.drop_left, List.take_left]

/-- A field of a record laid out field after field, given by its position. -/
theorem slice_flatten (fields : List (List α)) (after : List α) {i : Nat} (h : i < fields.length) :
    slice (fields.flatten ++ after) (fields.take i).flatten.length fields[i].length =
      fields[i] := by
  have hsplit : fields.flatten ++ after = (fields.take i).flatten ++
      (fields[i] ++ ((fields.drop (i + 1)).flatten ++ after)) := by
    conv_lhs => rw [← List.take_append_drop i fields, List.drop_eq_getElem_cons h]
    rw [List.flatten_append, List.flatten_cons, List.append_assoc, List.append_assoc]
  rw [hsplit]
  exact slice_field _ _ _

theorem length_splice {buf new : List α} {pos : Nat} (h : pos + new.length ≤ buf.length) :
    (splice buf pos new).length = buf.length := by
  simp only [splice, List.length_append, List.length_take, List.length_drop]
  omega

theorem getElem?_splice {buf new : List α} {pos : Nat} (h : pos + new.length ≤ buf.length)
    (i : Nat) : (splice buf pos new)[i]? =
      if pos ≤ i ∧ i < pos + new.length then new[i - pos]? else buf[i]? := by
  have hpos : (buf.take pos).length = pos := by rw [List.length_take]; omega
  by_cases hi : i < pos
  · have : ¬ (pos ≤ i ∧ i < pos + new.length) := by omega
    rw [if_neg this, splice, List.append_assoc, List.getElem?_append_left (by omega),
      List.getElem?_take_of_lt hi]
  · by_cases hin : i < pos + new.length
    · rw [if_pos ⟨by omega, hin⟩, splice, List.append_assoc,
        List.getElem?_append_right (by omega), hpos, List.getElem?_append_left (by omega)]
    · have hlen : (buf.take pos ++ new).length = pos + new.length := by
        rw [List.length_append, hpos]
      have : ¬ (pos ≤ i ∧ i < pos + new.length) := by omega
      rw [if_neg this, splice, List.getElem?_append_right (by omega), hlen,
        List.getElem?_drop]
      congr 1
      omega

theorem slice_splice_append {buf new : List α} {pos len : Nat}
    (h : pos + len + new.length ≤ buf.length) :
    slice (splice buf (pos + len) new) pos (len + new.length) = slice buf pos len ++ new := by
  have htake : (buf.take (pos + len)).drop pos = slice buf pos len := by
    rw [List.drop_take, Nat.add_sub_cancel_left]
    rfl
  have hlen : (slice buf pos len).length = len := by
    rw [length_slice]
    omega
  rw [slice, splice, List.append_assoc, List.drop_append_of_le_length (by
    rw [List.length_take]
    omega), htake, ← List.append_assoc]
  exact List.take_left' (by rw [List.length_append, hlen])

theorem length_grow (buf : List α) (n : Nat) (a : α) :
    (grow buf n a).length = max buf.length n := by
  simp only [grow, List.length_append, List.length_replicate]
  omega

theorem getElem?_grow {buf : List α} {n : Nat} {a : α} {i : Nat} (h : i < buf.length) :
    (grow buf n a)[i]? = buf[i]? :=
  List.getElem?_append_left h

/-- Two buffers of one length with the same bytes from some position on have the
same rest. -/
theorem drop_eq_of_getElem? {xs ys : List α} {pos : Nat}
    (h : ∀ i, pos ≤ i → xs[i]? = ys[i]?) : xs.drop pos = ys.drop pos := by
  apply List.ext_getElem?
  intro i
  rw [List.getElem?_drop, List.getElem?_drop]
  exact h _ (by omega)

/-- Writing `head ++ tail` over a buffer and putting back what stood in the place
of `head` writes `tail` behind it and nothing else. -/
theorem splice_restore (buf head tail : List α) (pos : Nat)
    (h : pos + (head ++ tail).length ≤ buf.length) :
    splice (splice buf pos (head ++ tail)) pos (slice buf pos head.length) =
      splice buf (pos + head.length) tail := by
  rw [List.length_append] at h
  have hback : (slice buf pos head.length).length = head.length := by
    rw [length_slice]; omega
  have hfit : pos + (head ++ tail).length ≤ buf.length := by
    rw [List.length_append]; omega
  apply List.ext_getElem?
  intro i
  rw [getElem?_splice (by rw [length_splice hfit, hback]; omega), getElem?_splice hfit,
    getElem?_splice (by omega), hback, getElem?_slice, List.length_append]
  -- the three zones: the restored head, the tail, everything else
  by_cases hhead : pos ≤ i ∧ i < pos + head.length
  · have h₁ : i - pos < head.length := by omega
    have h₂ : ¬ (pos + head.length ≤ i ∧ i < pos + head.length + tail.length) := by omega
    rw [if_pos hhead, if_pos h₁, if_neg h₂]
    congr 1
    omega
  · by_cases htail : pos + head.length ≤ i ∧ i < pos + head.length + tail.length
    · have h₁ : pos ≤ i ∧ i < pos + (head.length + tail.length) := by omega
      rw [if_neg hhead, if_pos h₁, if_pos htail, List.getElem?_append_right (by omega)]
      congr 1
      omega
    · have h₁ : ¬ (pos ≤ i ∧ i < pos + (head.length + tail.length)) := by omega
      rw [if_neg hhead, if_neg h₁, if_neg htail]

theorem take_append_splice_drop (buf new : List α) (pos off : Nat) :
    buf.take pos ++ splice (buf.drop pos) off new = splice buf (pos + off) new := by
  have htake : buf.take (pos + off) = buf.take pos ++ (buf.drop pos).take off := List.take_add
  rw [splice, splice, htake, List.drop_drop]
  simp only [List.append_assoc, Nat.add_assoc]

/-! ## Serialised values -/

/-- Values as bytes. Reading takes as many bytes as were written and leaves the others. -/
structure Codec (H : Type) where
  serialize : H → List UInt8
  deserialize : List UInt8 → Option H
  deserialize_serialize : ∀ h rest, deserialize (serialize h ++ rest) = some h

namespace Codec

variable {H : Type}

/-- How many bytes a value takes. -/
def size (c : Codec H) (h : H) : Nat := (c.serialize h).length

theorem size_pos [Nontrivial H] (c : Codec H) (h : H) : 0 < c.size h := by
  obtain ⟨other, hother⟩ := exists_ne h
  rw [size, List.length_pos_iff]
  intro hnil
  -- the bytes of the other value would be read as this one
  have hread := c.deserialize_serialize h (c.serialize other)
  have hread' := c.deserialize_serialize other []
  rw [hnil, List.nil_append] at hread
  rw [List.append_nil, hread] at hread'
  exact hother (Option.some.inj hread').symm

end Codec

end SiestaVR.Lib
