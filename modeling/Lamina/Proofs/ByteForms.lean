import Mathlib
import Lamina.Proofs.FoldOutcomes

/-!
# Byte forms

The byte form of a buffer is the byte forms of its words, one after another. A word has a fixed
number of bytes, and is written in one way only (`WordForm`), so that bytes can be cut into groups
of this size and read back word by word. Words are compared as bits: nothing is said about their
values as numbers, and so the sign of a zero and the payload of a NaN come back too.

**Theorem** (`Initializer.raw_forms`): reading and writing bytes are inverse to each other. Bytes
can be read if and only if they make up whole words. They make an initializer if and only if they
have the size of its shape, everything else being malformed, and a constant that is written, read
and passed on by an identity has the values it had. All this is for shapes whose size can be
computed; others are not compared with the bytes (`Initializer.ofRaw_beyond_words`).
-/

namespace Lamina

open Buffer

/-! ### Numbers -/

@[simp] theorem length_littleEndian (n w : Nat) : (littleEndian n w).length = n := by
  induction n generalizing w with
  | zero => rfl
  | succ n ih => simp [littleEndian, ih]

theorem ofLittleEndian_lt (bs : List UInt8) : ofLittleEndian bs < 256 ^ bs.length := by
  induction bs with
  | nil => exact Nat.one_pos
  | cons b bs ih =>
    have hb : b.toNat < 256 := b.toNat_lt
    rw [ofLittleEndian, List.length_cons, Nat.pow_succ]
    omega

/-- As much of a number is read back as there are bytes. -/
theorem ofLittleEndian_littleEndian (n w : Nat) :
    ofLittleEndian (littleEndian n w) = w % 256 ^ n := by
  induction n generalizing w with
  | zero => simp [littleEndian, ofLittleEndian, Nat.mod_one]
  | succ n ih =>
    rw [littleEndian, ofLittleEndian, ih, Nat.pow_succ', Nat.mod_mul]
    simp

/-- Bytes are written back. -/
theorem littleEndian_ofLittleEndian (bs : List UInt8) :
    littleEndian bs.length (ofLittleEndian bs) = bs := by
  induction bs with
  | nil => rfl
  | cons b bs ih =>
    have hb : b.toNat < 256 := b.toNat_lt
    have hlow : (b.toNat + 256 * ofLittleEndian bs) % 256 = b.toNat := by omega
    have hhigh : (b.toNat + 256 * ofLittleEndian bs) / 256 = ofLittleEndian bs := by omega
    rw [List.length_cons, ofLittleEndian, littleEndian, hlow, hhigh, ih, UInt8.ofNat_toNat]

/-! ### Words -/

/-- A way of writing the words of a type as `size` bytes each, every group of bytes being the form
of one word. -/
structure WordForm (β : Type) (size : Nat) where
  /-- The bytes of a word. -/
  write : β → List UInt8
  /-- The word of some bytes. -/
  read : List UInt8 → β
  /-- All words have the same number of bytes. -/
  length_write : ∀ x, (write x).length = size
  /-- A word is read back. -/
  read_write : ∀ x, read (write x) = x
  /-- Bytes are written back. -/
  write_read : ∀ bs, bs.length = size → write (read bs) = bs

namespace WordForm

/-- The form of words of a number of bits. -/
def bits (size : Nat) : WordForm (BitVec (8 * size)) size where
  write x := littleEndian size x.toNat
  read bs := BitVec.ofNat _ (ofLittleEndian bs)
  length_write x := length_littleEndian size x.toNat
  read_write x := by
    have hlt : x.toNat < 256 ^ size := by simpa [Nat.pow_mul] using x.isLt
    rw [ofLittleEndian_littleEndian, Nat.mod_eq_of_lt hlt, BitVec.ofNat_toNat, BitVec.setWidth_eq]
  write_read bs hbs := by
    subst hbs
    have hlt : ofLittleEndian bs < 2 ^ (8 * bs.length) := by
      simpa [Nat.pow_mul] using ofLittleEndian_lt bs
    rw [BitVec.toNat_ofNat, Nat.mod_eq_of_lt hlt, littleEndian_ofLittleEndian]

/-- The form of words that are kept as bits. -/
def ofBits {β : Type} {size : Nat} (e : β ≃ BitVec (8 * size)) : WordForm β size where
  write x := (bits size).write (e x)
  read bs := e.symm ((bits size).read bs)
  length_write x := (bits size).length_write (e x)
  read_write x := by rw [(bits size).read_write, e.symm_apply_apply]
  write_read bs hbs := by rw [e.apply_symm_apply, (bits size).write_read bs hbs]

/-- The form of a single-precision word. -/
def float : WordForm Binary32 4 :=
  ofBits ⟨fun x => x.bits, fun b => Binary.mk (f := .single) b, fun _ => rfl, fun _ => rfl⟩

/-- The form of a 64-bit integer. -/
def int64 : WordForm Int64 8 :=
  ofBits ⟨Int64.toBitVec, Int64.ofBitVec, fun _ => rfl, fun _ => rfl⟩

end WordForm

/-! ### Groups of bytes -/

variable {β : Type} {size : Nat}

/-- Bytes that fill a number of groups are these groups one after another. -/
theorem flatten_groups {count : Nat} {bs : List UInt8} (h : bs.length = count * size) :
    (groups size count bs).flatten = bs ∧ ∀ g ∈ groups size count bs, g.length = size := by
  induction count generalizing bs with
  | zero =>
    obtain rfl : bs = [] := List.eq_nil_of_length_eq_zero (by simpa using h)
    exact ⟨rfl, by simp [groups]⟩
  | succ count ih =>
    rw [Nat.succ_mul] at h
    have hrest : (bs.drop size).length = count * size := by simp [h]
    obtain ⟨hflat, hlength⟩ := ih hrest
    refine ⟨by rw [groups, List.flatten_cons, hflat, List.take_append_drop], ?_⟩
    intro g hg
    rcases List.mem_cons.1 hg with rfl | hg
    · simp [h]
    · exact hlength g hg

namespace WordForm

/-- The forms of words, one after another, fall into groups of one word each. -/
theorem groups_flatMap (f : WordForm β size) (xs : List β) :
    groups size xs.length (xs.flatMap f.write) = xs.map f.write := by
  induction xs with
  | nil => rfl
  | cons x xs ih =>
    have hx : (f.write x).length = size := f.length_write x
    rw [List.length_cons, groups, List.flatMap_cons, List.take_left' hx, List.drop_left' hx, ih,
      List.map_cons]

theorem length_flatMap (f : WordForm β size) (xs : List β) :
    (xs.flatMap f.write).length = xs.length * size := by
  simp [List.length_flatMap, f.length_write]

/-- **The words read from bytes** are the ones with these bytes. -/
theorem read_eq_iff (f : WordForm β size) {bs : List UInt8} (hpos : 0 < size)
    (hdvd : size ∣ bs.length) (v : Array β) :
    ((groups size (bs.length / size) bs).map f.read).toArray = v ↔
      v.toList.flatMap f.write = bs := by
  constructor
  · rintro rfl
    obtain ⟨hflat, hlength⟩ := flatten_groups (Nat.div_mul_cancel hdvd).symm
    rw [List.flatMap_map]
    calc (groups size (bs.length / size) bs).flatMap (fun g => f.write (f.read g))
      _ = (groups size (bs.length / size) bs).flatMap id :=
        List.flatMap_congr fun g hg => f.write_read g (hlength g hg)
      _ = bs := List.flatMap_id.trans hflat
  · rintro rfl
    rw [f.length_flatMap, Nat.mul_div_cancel _ hpos, f.groups_flatMap, List.map_map]
    exact congrArg List.toArray (List.map_id'' f.read_write v.toList)

end WordForm

/-! ### Buffers -/

theorem ElementType.byteSize_pos (t : ElementType) : 0 < t.byteSize := by
  cases t <;> decide

namespace Buffer

theorem length_toBytes (d : Buffer) : d.toBytes.length = d.elementType.byteSize * d.size := by
  cases d with
  | floats v =>
    rw [Nat.mul_comm]
    exact WordForm.float.length_flatMap v.toList
  | ints v =>
    rw [Nat.mul_comm]
    exact WordForm.int64.length_flatMap v.toList

theorem ofBytes?_eq_none {t : ElementType} {bs : List UInt8} :
    ofBytes? t bs = none ↔ ¬ t.byteSize ∣ bs.length := by
  rw [Nat.dvd_iff_mod_eq_zero]
  unfold ofBytes?
  split
  · simp [*]
  · cases t <;> simp_all

/-- The buffer of the words in groups of bytes. -/
def ofGroups (t : ElementType) (gs : List (List UInt8)) : Buffer :=
  match t with
  | .float => floats (gs.map WordForm.float.read).toArray
  | .int64 => ints (gs.map WordForm.int64.read).toArray

theorem ofBytes?_of_dvd {t : ElementType} {bs : List UInt8} (h : t.byteSize ∣ bs.length) :
    ofBytes? t bs = some (ofGroups t (groups t.byteSize (bs.length / t.byteSize) bs)) := by
  rw [ofBytes?, if_neg (not_not.2 (Nat.mod_eq_zero_of_dvd h))]
  cases t with
  | float =>
    simp only [List.map_map]
    rfl
  | int64 =>
    simp only [List.map_map]
    rfl

/-- **Reading and writing bytes are inverse to each other.** -/
theorem ofBytes?_eq_some {t : ElementType} {bs : List UInt8} {d : Buffer} :
    ofBytes? t bs = some d ↔ d.elementType = t ∧ d.toBytes = bs := by
  by_cases h : t.byteSize ∣ bs.length
  · rw [ofBytes?_of_dvd h, Option.some.injEq]
    cases t with
    | float =>
      cases d with
      | floats v =>
        rw [ofGroups, floats.injEq]
        exact (WordForm.float.read_eq_iff (by decide) h v).trans (and_iff_right rfl).symm
      | ints v => simp [ofGroups, elementType]
    | int64 =>
      cases d with
      | floats v => simp [ofGroups, elementType]
      | ints v =>
        rw [ofGroups, ints.injEq]
        exact (WordForm.int64.read_eq_iff (by decide) h v).trans (and_iff_right rfl).symm
  · rw [ofBytes?_eq_none.2 h]
    constructor
    · intro hnone
      cases hnone
    · rintro ⟨rfl, rfl⟩
      exact absurd ⟨d.size, d.length_toBytes⟩ h

/-- Buffers of one type with the same bytes are equal, word for word. -/
theorem toBytes_injective {d d' : Buffer} (htype : d.elementType = d'.elementType)
    (hbytes : d.toBytes = d'.toBytes) : d = d' :=
  Option.some.inj ((ofBytes?_eq_some.2 ⟨htype, hbytes⟩).symm.trans (ofBytes?_eq_some.2 ⟨rfl, rfl⟩))

end Buffer

/-! ### Initializers -/

namespace Initializer

/-- What raw data gives: an initializer with these bytes, or a fault for which the model is to
blame, if they do not have the size of the shape. If the size cannot be computed the data is given
up. -/
theorem ofRaw_yields (name : String) (t : ElementType) (shape : Shape) (raw : List UInt8) :
    Yields (fun f => f.kind = .malformed ∧ raw.length ≠ t.byteSize * shape.count ∧
          (t.byteSize ∣ raw.length → ProductFits shape.dims) ∨
        f.kind = .fatal ∧ t.byteSize ∣ raw.length ∧ ¬ ProductFits shape.dims)
      (ofRaw name t shape raw) fun i => (ProductFits shape.dims ∧
        raw.length = t.byteSize * shape.count) ∧ i.name = name ∧
        i.tensor.shape = shape ∧ i.tensor.elementType = t ∧ i.tensor.source.toBytes = raw := by
  unfold ofRaw
  cases hdata : ofBytes? t raw with
  | none =>
    have hwhole := ofBytes?_eq_none.1 hdata
    refine .fail (.inl ⟨rfl, fun hlength => hwhole ⟨shape.count, hlength⟩, fun hdvd => ?_⟩)
    exact absurd hdvd hwhole
  | some data =>
    obtain ⟨rfl, rfl⟩ := ofBytes?_eq_some.1 hdata
    have hfills : data.toBytes.length = data.elementType.byteSize * shape.count ↔
        data.size = shape.count := by
      rw [length_toBytes, Nat.mul_right_inj data.elementType.byteSize_pos.ne']
    refine Yields.bind (Yields.product fun _ hnot => ?_) ?_
    · exact .inr ⟨rfl, ⟨data.size, data.length_toBytes⟩, hnot⟩
    rintro _ ⟨rfl, hfits⟩
    split
    · rename_i hsize
      obtain ⟨r, hr, hshape, hsource⟩ := Constant.exists_ofBuffer hsize
      rw [hr]
      refine .ok ⟨⟨hfits, hfills.2 hsize⟩, rfl, hshape, ?_, congrArg toBytes hsource⟩
      rw [Constant.elementType, ← Constant.elementType_source, hsource]
    · rename_i hsize
      exact .fail (.inl ⟨rfl, fun hlength => hsize (hfills.1 hlength), fun _ => hfits⟩)

theorem exists_ofRaw {name : String} {t : ElementType} {shape : Shape} {raw : List UInt8}
    (hfits : ProductFits shape.dims) (h : raw.length = t.byteSize * shape.count) :
    ∃ i, ofRaw name t shape raw = .ok i := by
  cases hi : ofRaw name t shape raw with
  | ok i => exact ⟨i, rfl⟩
  | error f =>
    rcases (ofRaw_yields ..).fault hi with ⟨-, hlength, -⟩ | ⟨-, -, hnot⟩
    · exact absurd h hlength
    · exact absurd hfits hnot

/-- What comes of bytes that are to fill a shape. -/
structure FillsExactly (name : String) (t : ElementType) (shape : Shape) (raw : List UInt8) :
    Prop where
  /-- They do if they have the size of the shape and this size can be computed. -/
  fills_iff : (∃ i, ofRaw name t shape raw = .ok i) ↔
    ProductFits shape.dims ∧ raw.length = t.byteSize * shape.count
  /-- The initializer has these bytes. -/
  filled : ∀ i, ofRaw name t shape raw = .ok i → i.name = name ∧ i.tensor.shape = shape ∧
    i.tensor.elementType = t ∧ i.tensor.source.toBytes = raw
  kinds : ∀ f, ofRaw name t shape raw = .error f → f.kind = .malformed ∨ f.kind = .fatal
  /-- Whole words are given up if there is no number to compare theirs with. -/
  fatal_iff : (∃ f, ofRaw name t shape raw = .error f ∧ f.kind = .fatal) ↔
    t.byteSize ∣ raw.length ∧ ¬ ProductFits shape.dims

theorem ofRaw_fillsExactly (name : String) (t : ElementType) (shape : Shape) (raw : List UInt8) :
    FillsExactly name t shape raw := by
  have h := ofRaw_yields name t shape raw
  refine ⟨⟨?_, fun hi => exists_ofRaw hi.1 hi.2⟩, fun i hi => (h.value hi).2,
    fun f hf => (h.fault hf).imp And.left And.left, h.fatal_iff ?_ ?_⟩
  · rintro ⟨i, hi⟩
    exact (h.value hi).1
  · rintro ⟨-, hfits⟩ ⟨hwhole, hnot⟩
    exact hnot (hfits hwhole)
  · rintro i ⟨⟨hfits, -⟩, -⟩ ⟨-, hnot⟩
    exact hnot hfits

/-- **Raw data.** Reading and writing bytes are inverse to each other, and bytes can be read if and
only if they make up whole words. They make an initializer with these bytes if and only if they have
the size of its shape and this size can be computed. Every other outcome is malformed, but for whole
words whose number cannot be compared, which are given up. A constant that is written, read and
passed on by an identity has the values it had. -/
theorem raw_forms (name : String) (t : ElementType) (shape : Shape) (raw : List UInt8) :
    (∀ d, ofBytes? t raw = some d ↔ d.elementType = t ∧ d.toBytes = raw) ∧
    (ofBytes? t raw = none ↔ ¬ t.byteSize ∣ raw.length) ∧ FillsExactly name t shape raw ∧
    ∀ (c : Constant) (h : Header), ProductFits c.shape.dims → ∃ i r,
      ofRaw name c.elementType c.shape c.source.toBytes = .ok i ∧
      (Operator.mk h .identity).foldOutputs (.ofConstants [i.tensor]) = .ok [r] ∧
      r.shape = c.shape ∧ r.source = c.source := by
  refine ⟨fun _ => ofBytes?_eq_some, ofBytes?_eq_none, ofRaw_fillsExactly name t shape raw,
    fun c h hfits => ?_⟩
  have htype : c.source.elementType = c.elementType := c.elementType_source
  have hlength : c.source.toBytes.length = c.elementType.byteSize * c.shape.count := by
    rw [length_toBytes, htype, c.size_source]
  obtain ⟨i, hi⟩ := exists_ofRaw hfits hlength
  obtain ⟨-, -, hshape, hsame, hbytes⟩ := (ofRaw_yields ..).value hi
  refine ⟨i, i.tensor, hi, rfl, hshape, toBytes_injective ?_ hbytes⟩
  rw [Constant.elementType_source, htype]
  exact hsame

/-- **Sizes that cannot be computed.** No bytes are too few for the first shape and just enough for
the second, but neither is found out. -/
theorem ofRaw_beyond_words :
    (∃ f, ofRaw "x" .float ⟨[4611686018427387904, 4]⟩ [] = .error f ∧ f.kind = .fatal ∧
        0 ≠ ElementType.float.byteSize * Shape.count ⟨[4611686018427387904, 4]⟩) ∧
      ∃ f, ofRaw "x" .float ⟨[4294967296, 4294967296, 0]⟩ [] = .error f ∧ f.kind = .fatal ∧
        0 = ElementType.float.byteSize * Shape.count ⟨[4294967296, 4294967296, 0]⟩ :=
  ⟨⟨_, rfl, rfl, by decide +kernel⟩, _, rfl, rfl, by decide +kernel⟩

end Initializer

end Lamina
