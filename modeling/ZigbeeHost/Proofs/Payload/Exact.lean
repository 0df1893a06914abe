import ZigbeeHost.Bytes.Lemmas
import ZigbeeHost.Payload.Layout
import ZigbeeHost.Failure
/-!
# Layouts as prefix codes

A layout is `Exact` if reading undoes writing and nothing else : a consistent value is read
back whatever follows it, what is read is consistent and is what was written, and bytes that
break off inside a value lack data and are no value of another kind.

Exactness composes. Scalars are words (`exact_word`), and a field that depends on the one
before keeps it (`Exact.followed`), which covers pairs and counted lists at once : the items
behind a count are a layout for each count (`items`), exact by induction on the count. All
other layouts present the values of a simpler one, and are exact with it
(`Presents.exact`). The instances below let exactness of a record be found from its fields.
-/

namespace ZigbeeHost

namespace Codec

variable {α β : Type}

/-- Reading undoes writing, and nothing else. -/
class Exact (c : Codec α) : Prop where
  read_write {v : α} (rest : Bytes) :
    c.Consistent v → c.read (c.write v ++ rest) = .ok (v, rest)
  write_read {bytes rest : Bytes} {v : α} :
    c.read bytes = .ok (v, rest) → c.Consistent v ∧ c.write v ++ rest = bytes
  read_short {v : α} {front missing : Bytes} :
    c.Consistent v → c.write v = front ++ missing → missing ≠ [] →
      ∃ bits, c.read front = .error (.notEnough bits)

/-! ## Words -/

theorem exact_word {width : Nat} {ofNat : Nat → α} {toNat : α → Nat}
    (hbound : ∀ v, toNat v < 256 ^ width) (hleft : ∀ v, ofNat (toNat v) = v)
    (hright : ∀ n < 256 ^ width, toNat (ofNat n) = n) : (word width ofNat toNat).Exact where
  read_write {v} rest _ := by
    have hnat : ofLittleEndian (littleEndian width (toNat v)) = toNat v := by
      rw [ofLittleEndian_littleEndian, Nat.mod_eq_of_lt (hbound v)]
    have hlength := length_littleEndian width (toNat v)
    simp [word, hlength, List.take_left' hlength, List.drop_left' hlength, hnat, hleft]
  write_read {bytes rest v} h := by
    simp only [word] at h
    split at h
    · cases h
    · rename_i hlength
      have htake : (bytes.take width).length = width := by
        rw [List.length_take]
        omega
      have hlt : ofLittleEndian (bytes.take width) < 256 ^ width := by
        simpa only [htake] using ofLittleEndian_lt (bytes.take width)
      obtain ⟨rfl, rfl⟩ : ofNat (ofLittleEndian (bytes.take width)) = v ∧
          bytes.drop width = rest := by simpa using h
      refine ⟨trivial, ?_⟩
      have hwrite := littleEndian_ofLittleEndian (bytes.take width)
      rw [htake] at hwrite
      simp only [word, hright _ hlt, hwrite, List.take_append_drop]
  read_short {v front missing} _ hwrite hmissing := by
    have hlength : front.length < width := by
      have hsum := congrArg List.length hwrite
      simp only [word, length_littleEndian, List.length_append] at hsum
      have hpos := List.length_pos_iff.mpr hmissing
      omega
    exact ⟨8 * width, by simp [word, hlength]⟩

instance : u8.Exact := exact_word UInt8.toNat_lt (fun _ => UInt8.ofNat_toNat)
  fun _ h => UInt8.toNat_ofNat_of_lt' h

instance : u16.Exact := exact_word UInt16.toNat_lt (fun _ => UInt16.ofNat_toNat)
  fun _ h => UInt16.toNat_ofNat_of_lt' h

instance : u32.Exact := exact_word UInt32.toNat_lt (fun _ => UInt32.ofNat_toNat)
  fun _ h => UInt32.toNat_ofNat_of_lt' h

instance : u64.Exact := exact_word UInt64.toNat_lt (fun _ => UInt64.ofNat_toNat)
  fun _ h => UInt64.toNat_ofNat_of_lt' h

/-! ## One layout after another -/

/-- A value, and then one whose layout may depend on it. -/
def andThen (a : Codec α) (b : α → Codec β) : Codec (α × β) where
  write v := a.write v.1 ++ (b v.1).write v.2
  read bytes := do
    let (x, rest) ← a.read bytes
    let (y, rest) ← (b x).read rest
    .ok ((x, y), rest)
  Consistent v := a.Consistent v.1 ∧ (b v.1).Consistent v.2

theorem write_andThen (a : Codec α) (b : α → Codec β) (v : α × β) :
    (a.andThen b).write v = a.write v.1 ++ (b v.1).write v.2 := rfl

theorem read_andThen_of_ok {a : Codec α} {b : α → Codec β} {bytes rest : Bytes} {x : α}
    (h : a.read bytes = .ok (x, rest)) :
    (a.andThen b).read bytes = (b x).read rest >>= fun v => .ok ((x, v.1), v.2) := by
  simp only [andThen, h]
  rfl

theorem read_andThen_of_error {a : Codec α} {b : α → Codec β} {bytes : Bytes}
    {e : DecodeFailure} (h : a.read bytes = .error e) :
    (a.andThen b).read bytes = .error e := by
  simp only [andThen, h]
  rfl

instance {a : Codec α} {b : α → Codec β} [ha : a.Exact] [hb : ∀ x, (b x).Exact] :
    (a.andThen b).Exact where
  read_write {v} rest h := by
    have hfirst := ha.read_write ((b v.1).write v.2 ++ rest) h.1
    have hsecond := (hb v.1).read_write rest h.2
    rw [← List.append_assoc] at hfirst
    rw [write_andThen, read_andThen_of_ok hfirst, hsecond]
    rfl
  write_read {bytes rest v} h := by
    cases hfirst : a.read bytes with
    | error e =>
      rw [read_andThen_of_error hfirst] at h
      cases h
    | ok first =>
      obtain ⟨x, middle⟩ := first
      rw [read_andThen_of_ok hfirst] at h
      cases hsecond : (b x).read middle with
      | error e =>
        rw [hsecond] at h
        cases h
      | ok second =>
        obtain ⟨y, last⟩ := second
        rw [hsecond] at h
        cases h
        obtain ⟨hx, hxbytes⟩ := ha.write_read hfirst
        obtain ⟨hy, hybytes⟩ := (hb x).write_read hsecond
        exact ⟨⟨hx, hy⟩, by rw [write_andThen, List.append_assoc, hybytes, hxbytes]⟩
  read_short {v front missing} h hwrite hmissing := by
    -- The bytes break off inside the second value, or inside the first.
    rcases List.append_eq_append_iff.mp hwrite with ⟨more, hfront, hsecond⟩ | ⟨gap, hfirst, hgap⟩
    · obtain ⟨bits, hshort⟩ := (hb v.1).read_short h.2 hsecond hmissing
      have hread := ha.read_write more h.1
      rw [← hfront] at hread
      exact ⟨bits, by rw [read_andThen_of_ok hread, hshort]; rfl⟩
    · cases gap with
      | nil =>
        have hread := ha.read_write [] h.1
        have hnone : (b v.1).write v.2 = [] ++ missing := hgap.symm
        obtain ⟨bits, hshort⟩ := (hb v.1).read_short h.2 hnone hmissing
        rw [List.append_nil] at hread hfirst
        rw [hfirst] at hread
        exact ⟨bits, by rw [read_andThen_of_ok hread, hshort]; rfl⟩
      | cons b rest =>
        obtain ⟨bits, hshort⟩ := ha.read_short h.1 hfirst (List.cons_ne_nil b rest)
        exact ⟨bits, read_andThen_of_error hshort⟩

instance {a : Codec α} {b : Codec β} [a.Exact] [b.Exact] : (a.pair b).Exact :=
  inferInstanceAs (a.andThen fun _ => b).Exact

/-! ## The same layout under another type -/

/-- The layout `d` is `c` under another type : a value of `d` is written as the value `f` of
`c`, it is read where that one is, and where `c` lacks data, so does `d`. -/
structure Presents (d : Codec β) (c : Codec α) (f : β → α) : Prop where
  write : ∀ v, d.write v = c.write (f v)
  consistent : ∀ v, d.Consistent v ↔ c.Consistent (f v)
  read : ∀ bytes v rest, d.read bytes = .ok (v, rest) ↔ c.read bytes = .ok (f v, rest)
  short : ∀ bytes bits, c.read bytes = .error (.notEnough bits) →
    d.read bytes = .error (.notEnough bits)

theorem Presents.exact {c : Codec α} {d : Codec β} {f : β → α} (h : d.Presents c f)
    [hc : c.Exact] : d.Exact where
  read_write {v} rest hv := by
    rw [h.read, h.write]
    exact hc.read_write rest ((h.consistent v).mp hv)
  write_read {bytes rest v} hread := by
    obtain ⟨hv, hbytes⟩ := hc.write_read ((h.read ..).mp hread)
    exact ⟨(h.consistent v).mpr hv, by rw [h.write, hbytes]⟩
  read_short {v front missing} hv hwrite hmissing := by
    rw [h.write] at hwrite
    obtain ⟨bits, hshort⟩ := hc.read_short ((h.consistent v).mp hv) hwrite hmissing
    exact ⟨bits, h.short _ _ hshort⟩

theorem exact_map {c : Codec α} [c.Exact] {present : α → β} {fields : β → α}
    (hleft : ∀ v, present (fields v) = v) (hright : ∀ v, fields (present v) = v) :
    (c.map present fields).Exact := by
  have hpresents : (c.map present fields).Presents c fields :=
    { write := fun _ => rfl
      consistent := fun _ => Iff.rfl
      read := by
        intro bytes v rest
        cases hread : c.read bytes with
        | error e => simp [map, hread, bind, Except.bind]
        | ok first =>
          simp only [map, hread, bind, Except.bind, Except.ok.injEq, Prod.ext_iff]
          refine and_congr_left fun _ => ⟨fun h => ?_, fun h => ?_⟩
          · rw [← h, hright]
          · rw [h, hleft]
      short := by
        intro bytes bits hread
        simp [map, hread, bind, Except.bind] }
  exact hpresents.exact

/-! ## Flags and enumerations -/

instance : flag.Exact := by
  have hpresents : flag.Presents u8 fun b => if b then 1 else 0 :=
    { write := by
        intro b
        cases b <;> rfl
      consistent := fun _ => Iff.rfl
      read := by
        intro bytes b rest
        cases hread : u8.read bytes with
        | error e => simp [flag, hread, bind, Except.bind]
        | ok first =>
          obtain ⟨v, left⟩ := first
          simp only [flag, hread, bind, Except.bind]
          split
          · subst v
            cases b <;> simp
          · split
            · subst v
              cases b <;> simp
            · cases b <;> simp_all
      short := by
        intro bytes bits hread
        simp [flag, hread, bind, Except.bind] }
  exact hpresents.exact

/-- The alternative with a number, if every alternative is listed and no number twice. -/
theorem find?_alternative {all : List α} {id : α → UInt8} (hall : ∀ a, a ∈ all)
    (hid : (all.map id).Nodup) (v : UInt8) (a : α) :
    all.find? (fun b => id b == v) = some a ↔ v = id a := by
  constructor
  · intro h
    have hv : id a = v := by simpa using List.find?_some h
    exact hv.symm
  · rintro rfl
    cases hfound : all.find? (fun b => id b == id a) with
    | none => simpa using List.find?_eq_none.mp hfound a (hall a)
    | some b =>
      have hb : id b = id a := by simpa using List.find?_some hfound
      rw [List.inj_on_of_nodup_map hid (hall b) (hall a) hb]

theorem exact_enumeration {name : String} {all : List α} {id : α → UInt8}
    (hall : ∀ a, a ∈ all) (hid : (all.map id).Nodup) : (enumeration name all id).Exact := by
  have hpresents : (enumeration name all id).Presents u8 id :=
    { write := by
        intro a
        simp [enumeration, u8, word, littleEndian]
      consistent := fun _ => Iff.rfl
      read := by
        intro bytes a rest
        cases hread : u8.read bytes with
        | error e => simp [enumeration, hread, bind, Except.bind]
        | ok first =>
          obtain ⟨v, left⟩ := first
          simp only [enumeration, hread, bind, Except.bind, Except.ok.injEq, Prod.mk.injEq,
            ← find?_alternative hall hid v a]
          cases all.find? fun a => id a == v <;> simp
      short := by
        intro bytes bits hread
        simp [enumeration, hread, bind, Except.bind] }
  exact hpresents.exact

/-! ## Lists -/

/-- Exactly `count` items. -/
def items (item : Codec α) (count : Nat) : Codec (List α) where
  write xs := xs.flatMap item.write
  read := item.readItems count
  Consistent xs := count = xs.length ∧ ∀ x ∈ xs, item.Consistent x

theorem read_items (item : Codec α) (count : Nat) (bytes : Bytes) :
    (item.items count).read bytes = item.readItems count bytes := rfl

/-- The first item and the others are an item and the others after it. -/
theorem readItems_succ_eq_ok {item : Codec α} {count : Nat} {bytes rest : Bytes}
    {xs : List α} : item.readItems (count + 1) bytes = .ok (xs, rest) ↔
      ∃ x others, xs = x :: others ∧
        (item.pair (item.items count)).read bytes = .ok ((x, others), rest) := by
  simp only [readItems, pair, items, bind, Except.bind]
  cases item.read bytes with
  | error e => simp
  | ok first =>
    cases hothers : item.readItems count first.2 with
    | error e => simp [hothers]
    | ok second =>
      simp only [hothers, Except.ok.injEq, Prod.mk.injEq]
      constructor
      · rintro ⟨rfl, rfl⟩
        exact ⟨_, _, rfl, ⟨rfl, rfl⟩, rfl⟩
      · rintro ⟨x, others, rfl, ⟨rfl, rfl⟩, rfl⟩
        exact ⟨rfl, rfl⟩

theorem readItems_succ_of_error {item : Codec α} {count : Nat} {bytes : Bytes}
    {e : DecodeFailure} (h : (item.pair (item.items count)).read bytes = .error e) :
    item.readItems (count + 1) bytes = .error e := by
  simp only [readItems, pair, items, bind, Except.bind] at h ⊢
  cases hfirst : item.read bytes with
  | error e' => simpa [hfirst] using h
  | ok first =>
    simp only [hfirst] at h ⊢
    cases hothers : item.readItems count first.2 with
    | error e' => simpa [hothers] using h
    | ok second => simp [hothers] at h

/-- The induction is on the count : one more item is an item before the others. -/
theorem exact_items {item : Codec α} [item.Exact] : ∀ count, (item.items count).Exact
  | 0 =>
    { read_write := by
        rintro v rest ⟨hcount, -⟩
        obtain rfl := List.length_eq_zero_iff.mp hcount.symm
        rfl
      write_read := by
        rintro bytes rest v h
        cases h
        exact ⟨⟨rfl, by simp⟩, rfl⟩
      read_short := by
        rintro v front missing ⟨hcount, -⟩ hwrite hmissing
        obtain rfl := List.length_eq_zero_iff.mp hcount.symm
        simp_all [items] }
  | count + 1 => by
    have hothers : (item.items count).Exact := exact_items count
    have hpair : (item.pair (item.items count)).Exact := inferInstance
    have hsplit : ∀ v, (item.items (count + 1)).Consistent v → ∃ x others, v = x :: others ∧
        (item.pair (item.items count)).Consistent (x, others) := by
      rintro v ⟨hcount, hv⟩
      cases v with
      | nil => cases hcount
      | cons x others =>
        exact ⟨x, others, rfl, hv x (by simp), Nat.succ.inj hcount,
          fun y hy => hv y (List.mem_cons_of_mem x hy)⟩
    exact
      { read_write := by
          intro v rest hv
          obtain ⟨x, others, rfl, hpaired⟩ := hsplit v hv
          exact readItems_succ_eq_ok.mpr ⟨x, others, rfl, hpair.read_write rest hpaired⟩
        write_read := by
          intro bytes rest v h
          obtain ⟨x, others, rfl, hread⟩ := readItems_succ_eq_ok.mp h
          obtain ⟨⟨hx, hcount, hothers⟩, hbytes⟩ := hpair.write_read hread
          exact ⟨⟨congrArg (· + 1) hcount, by simpa using ⟨hx, hothers⟩⟩, hbytes⟩
        read_short := by
          intro v front missing hv hwrite hmissing
          obtain ⟨x, others, rfl, hpaired⟩ := hsplit v hv
          obtain ⟨bits, hshort⟩ := hpair.read_short hpaired hwrite hmissing
          exact ⟨bits, readItems_succ_of_error hshort⟩ }

instance {item : Codec α} [item.Exact] : item.counted.Exact := by
  have hitems (count : UInt8) : (item.items count.toNat).Exact := exact_items count.toNat
  have hpresents : item.counted.Presents (u8.andThen fun count => item.items count.toNat) id :=
    { write := fun _ => rfl
      consistent := fun _ => (iff_of_eq (true_and _)).symm
      read := fun _ _ _ => Iff.rfl
      short := fun _ _ h => h }
  exact hpresents.exact

instance {item : Codec α} [item.Exact] : item.list.Exact := by
  have hcount (n : Nat) : (UInt8.ofNat n).toNat = n ↔ n < 256 := by
    rw [UInt8.toNat_ofNat']
    omega
  have hpresents : item.list.Presents item.counted fun xs => (UInt8.ofNat xs.length, xs) :=
    { write := fun _ => rfl
      consistent := fun xs => and_congr_left fun _ => (hcount xs.length).symm
      read := by
        intro bytes xs rest
        cases hread : item.counted.read bytes with
        | error e => simp [list, hread, bind, Except.bind]
        | ok v =>
          obtain ⟨⟨count, ys⟩, left⟩ := v
          have hlength : UInt8.ofNat ys.length = count := by
            obtain ⟨⟨hys, -⟩, -⟩ := Exact.write_read hread
            rw [← hys, UInt8.ofNat_toNat]
          simp only [list, hread, bind, Except.bind, Except.ok.injEq, Prod.mk.injEq]
          refine and_congr_left fun _ => ⟨?_, And.right⟩
          rintro rfl
          exact ⟨hlength.symm, rfl⟩
      short := by
        intro bytes bits hread
        simp [list, hread, bind, Except.bind] }
  exact hpresents.exact

instance : byteString.Exact := inferInstanceAs u8.list.Exact

/-! ## Blocks -/

theorem readBlock_toList (n : Nat) (bytes : Bytes) :
    (readBlock n bytes).map (fun v => (v.1.toList, v.2)) = u8.readItems n bytes := by
  induction n generalizing bytes with
  | zero => rfl
  | succ n ih =>
    simp only [readBlock, readItems, bind, Except.bind]
    cases u8.read bytes with
    | error e => rfl
    | ok first =>
      simp only [← ih]
      cases readBlock n first.2 with
      | error e => rfl
      | ok second => simp [Except.map, Vector.toList]

instance {n : Nat} : (block n).Exact := by
  have hitems : (u8.items n).Exact := exact_items n
  have hflat (bytes : Bytes) : bytes.flatMap u8.write = bytes := by
    simp [u8, word, littleEndian]
  have hpresents : (block n).Presents (u8.items n) Vector.toList :=
    { write := fun v => (hflat v.toList).symm
      consistent := fun v => by simp [block, items, u8, word]
      read := by
        intro bytes v rest
        rw [read_items, ← readBlock_toList]
        cases h : readBlock n bytes with
        | error e => simp [block, h, Except.map]
        | ok first => simp [block, h, Except.map, Prod.ext_iff, Vector.toList_inj]
      short := by
        intro bytes bits h
        rw [read_items, ← readBlock_toList] at h
        cases hread : readBlock n bytes with
        | error e => simpa [block, hread, Except.map] using h
        | ok first => simp [hread, Except.map] at h }
  exact hpresents.exact

end Codec

/-! ## Layouts with names

Names play no part in the bytes, so a layout is exact with its codec. -/

section Layouts

variable {α β : Type}

instance : Layout.u8.toCodec.Exact := inferInstanceAs Codec.u8.Exact
instance : Layout.u16.toCodec.Exact := inferInstanceAs Codec.u16.Exact
instance : Layout.u32.toCodec.Exact := inferInstanceAs Codec.u32.Exact
instance : Layout.u64.toCodec.Exact := inferInstanceAs Codec.u64.Exact
instance : Layout.flag.toCodec.Exact := inferInstanceAs Codec.flag.Exact

instance {n : Nat} : (Layout.block n).toCodec.Exact := inferInstanceAs (Codec.block n).Exact

instance {l : Layout α} {name : String} [l.toCodec.Exact] : (l.named name).toCodec.Exact :=
  inferInstanceAs l.toCodec.Exact

instance {item : Layout α} {count name : String} [item.toCodec.Exact] :
    (item.counted count name).toCodec.Exact :=
  inferInstanceAs item.toCodec.counted.Exact

instance {count name : String} : (Layout.countedBytes count name).toCodec.Exact :=
  inferInstanceAs Codec.u8.counted.Exact

instance {a : Fields α} {b : Fields β} [a.toCodec.Exact] [b.toCodec.Exact] :
    (a.pair b).toCodec.Exact :=
  inferInstanceAs (a.toCodec.pair b.toCodec).Exact

theorem Layout.exact_map {l : Layout α} [l.toCodec.Exact] {present : α → β} {fields : β → α}
    (hleft : ∀ v, present (fields v) = v) (hright : ∀ v, fields (present v) = v) :
    (l.map present fields).toCodec.Exact :=
  Codec.exact_map hleft hright

theorem Fields.exact_record {a : Fields α} [a.toCodec.Exact] {name : String}
    {present : α → β} {fields : β → α} (hleft : ∀ v, present (fields v) = v)
    (hright : ∀ v, fields (present v) = v) : (a.record name present fields).toCodec.Exact :=
  Codec.exact_map hleft hright

end Layouts

/-! ## Whole byte strings -/

namespace Codec

variable {α : Type}

/-- Decoding whole byte strings and their starts, for an exact layout. -/
structure PrefixCode (c : Codec α) : Prop where
  /-- A consistent value is decoded from what is written for it. -/
  decode_write : ∀ v, c.Consistent v → c.decode (c.write v) = .ok v
  /-- What is decoded is consistent, and no other bytes are written for it. -/
  write_decode : ∀ bytes v, c.decode bytes = .ok v → c.Consistent v ∧ c.write v = bytes
  /-- Bytes that follow the value are counted, or ignored where only the start is read. -/
  trailing : ∀ bytes v, c.decode bytes = .ok v → ∀ rest, rest ≠ [] →
    c.decode (bytes ++ rest) = .error (.trailingBytes rest.length) ∧
      c.decodeStart (bytes ++ rest) = .ok v
  /-- Bytes that break off inside the value lack data, either way. -/
  truncated : ∀ bytes v, c.decode bytes = .ok v → ∀ front, front <+: bytes → front ≠ bytes →
    ∃ bits, c.decode front = .error (.decode (.notEnough bits)) ∧
      c.decodeStart front = .error (.decode (.notEnough bits))

theorem decode_of_read {c : Codec α} {bytes : Bytes} {v : α} (h : c.read bytes = .ok (v, [])) :
    c.decode bytes = .ok v := by
  simp only [decode, h]

theorem read_of_decode {c : Codec α} {bytes : Bytes} {v : α} (h : c.decode bytes = .ok v) :
    c.read bytes = .ok (v, []) := by
  unfold decode at h
  split at h
  · cases h
  · rename_i hread
    cases h
    exact hread
  · cases h

theorem prefixCode_of_exact (c : Codec α) [hc : c.Exact] : c.PrefixCode where
  decode_write v hv := by
    have hread := hc.read_write [] hv
    rw [List.append_nil] at hread
    exact decode_of_read hread
  write_decode bytes v h := by
    obtain ⟨hv, hbytes⟩ := hc.write_read (read_of_decode h)
    exact ⟨hv, by rw [← hbytes, List.append_nil]⟩
  trailing bytes v h rest hrest := by
    obtain ⟨hv, hbytes⟩ := hc.write_read (read_of_decode h)
    rw [List.append_nil] at hbytes
    have hread := hc.read_write rest hv
    rw [hbytes] at hread
    obtain ⟨b, others, rfl⟩ := List.exists_cons_of_ne_nil hrest
    exact ⟨by simp only [decode, hread], by simp only [decodeStart, hread]⟩
  truncated bytes v h front hfront hne := by
    obtain ⟨hv, hbytes⟩ := hc.write_read (read_of_decode h)
    obtain ⟨missing, rfl⟩ := hfront
    have hmissing : missing ≠ [] := by
      rintro rfl
      exact hne (List.append_nil front).symm
    rw [List.append_nil] at hbytes
    obtain ⟨bits, hshort⟩ := hc.read_short hv hbytes hmissing
    exact ⟨bits, by simp only [decode, hshort], by simp only [decodeStart, hshort]⟩

end Codec

end ZigbeeHost
