import Repackage.Proofs.Encoding.Decoding

/-!
# Class files end where they say

Nothing but its own bytes decides where a class file ends. With bytes after it, these are what is
left; and of a class file that stops short, nothing is wrong but that bytes run out.

`Starves n r taken` says that the reader `r` runs out of bytes on each start of `taken` that stops
short. Two readers in a row starve on what they take together (`Starves.bind`), since the second
one starts where the first one ends. The body of an attribute is taken as a whole before it is
looked into, so what nests need not be followed here.
-/

namespace Repackage

namespace Reader

variable {α β : Type} {n : Nat} {r : Reader α} {w : α → Written} {x : α} {a b taken : Bytes}

/-- On a start of `taken` that stops short, and has at most `n` bytes, bytes run out. -/
def Starves (n : Nat) (r : Reader α) (taken : Bytes) : Prop :=
  ∀ ⦃part⦄, part <+: taken → part.length < taken.length → part.length ≤ n →
    ∃ cause, r part = .error (.read cause)

theorem bind_of_eq_error {f : α → Reader β} {bytes : Bytes} {e : ClassError}
    (h : r bytes = .error e) : (r >>= f) bytes = .error e := by
  change (r bytes >>= fun p => f p.1 p.2) = .error e
  rw [h]
  rfl

theorem Starves.nil : Starves n r [] := fun _ _ hlt => absurd hlt (Nat.not_lt_zero _)

theorem Starves.bind {f : α → Reader β} (ha : Starves n r a)
    (hr : a.length ≤ n → ∀ rest, r (a ++ rest) = .ok (x, rest)) (hb : Starves n (f x) b) :
    Starves n (r >>= f) (a ++ b) := by
  intro part hpart hlt hn
  rw [List.length_append] at hlt
  rcases Nat.lt_or_ge part.length a.length with hshort | hlong
  · have hstart : part <+: a :=
      List.prefix_of_prefix_length_le hpart (List.prefix_append a b) (Nat.le_of_lt hshort)
    obtain ⟨cause, herror⟩ := ha hstart hshort hn
    exact ⟨cause, bind_of_eq_error herror⟩
  · -- all of `a` is there, and what is cut off is a part of `b`
    obtain ⟨rest, rfl⟩ : a <+: part :=
      List.prefix_of_prefix_length_le (List.prefix_append a b) hpart hlong
    rw [List.prefix_append_right_inj] at hpart
    rw [List.length_append] at hlt hn
    obtain ⟨cause, herror⟩ := hb hpart (by omega) (by omega)
    exact ⟨cause, by rw [bind_of_eq_ok (hr (by omega) rest), herror]⟩

/-- A value that is made from one thing read. -/
theorem Starves.map {f : α → β} (h : Starves n r taken) :
    Starves n (do return f (← r) : Reader β) taken := by
  intro part hpart hlt hn
  obtain ⟨cause, herror⟩ := h hpart hlt hn
  exact ⟨cause, bind_of_eq_error herror⟩

/-! ## Numbers -/

theorem u8_starves (k : UInt8) : Starves n u8 [k] := by
  intro part _ hlt _
  cases part with
  | nil => exact ⟨_, rfl⟩
  | cons c part => exact absurd hlt (by simp)

theorem u16_starves (k : UInt16) : Starves n u16 (Bytes.ofWord16 k) := by
  intro part _ hlt _
  cases part with
  | nil => exact ⟨_, rfl⟩
  | cons c part =>
    cases part with
    | nil => exact ⟨_, rfl⟩
    | cons d part => exact absurd hlt (by simp [Bytes.ofWord16])

theorem u32_starves (k : UInt32) : Starves n u32 (Bytes.ofWord32 k) :=
  (u16_starves _).bind (fun _ rest => u16_append rest _) (u16_starves _).map

theorem u64_starves (k : UInt64) : Starves n u64 (Bytes.ofWord64 k) :=
  (u32_starves _).bind (fun _ rest => u32_append rest _) (u32_starves _).map

theorem index_starves (i : Index) : Starves n index (Bytes.ofWord16 i) := u16_starves i

theorem optionalIndex_starves (i : Option Index) :
    Starves n optionalIndex (Writer.optionalIndex i) := (u16_starves _).map

theorem take_starves (short : Nat → ReadError) (taken : Bytes) :
    Starves n (take taken.length short) taken := by
  intro part _ hlt _
  have htake : part.take taken.length = part := List.take_of_length_le (Nat.le_of_lt hlt)
  refine ⟨short part.length, ?_⟩
  unfold take
  simp only [htake]
  exact if_neg (Nat.ne_of_lt hlt)

/-! ## Lists -/

/-- What is written for a value is read as that value, and no start of it is enough. -/
structure Delimits (n : Nat) (r : Reader α) (w : α → Written) (x : α) : Prop where
  recovers : Recovers n r w x
  starves : ∀ ⦃bytes⦄, w x = .ok bytes → Starves n r bytes

theorem index_delimits (i : Index) : Delimits n index (fun i => .ok (Bytes.ofWord16 i)) i where
  recovers := index_recovers i
  starves bytes h := by
    cases h
    exact index_starves i

theorem Delimits.times {xs : List α} (h : ∀ x ∈ xs, Delimits n r w x) {bytes : Bytes}
    (hw : Writer.items w xs = .ok bytes) : Starves n (r.times xs.length) bytes := by
  induction xs generalizing bytes with
  | nil =>
    cases hw
    exact .nil
  | cons x xs ih =>
    rw [Writer.items_cons] at hw
    obtain ⟨a, ha, hw⟩ := Writer.bind_eq_ok hw
    obtain ⟨b, hb, hw⟩ := Writer.bind_eq_ok hw
    cases hw
    have hx := h x List.mem_cons_self
    have hxs := ih (fun y hy => h y (List.mem_cons_of_mem x hy)) hb
    exact (hx.starves ha).bind (fun hn => hx.recovers ha hn) hxs.map

theorem Delimits.list16 {xs : List α} (h : ∀ x ∈ xs, Delimits n r w x) :
    Delimits n (Reader.list16 r) (Writer.list16 w) xs where
  recovers := .list16 fun x hx => (h x hx).recovers
  starves bytes hw := by
    obtain ⟨k, hk, hw⟩ := Writer.bind_eq_ok hw
    obtain ⟨a, ha, hw⟩ := Writer.bind_eq_ok hw
    cases hw
    have hxs := Delimits.times h ha
    rw [← Writer.toNat_of_length16 hk] at hxs
    exact (u16_starves k).bind (fun _ rest => u16_append rest k) hxs

end Reader

open Reader

/-! ## Constants -/

namespace Constant

theorem ofIndices_starves {n : Nat} (f : Index → Index → Constant) (i j : Index) :
    Starves n (do return f (← index) (← index) : Reader Constant)
      (Bytes.ofWord16 i ++ Bytes.ofWord16 j) :=
  (index_starves i).bind (fun _ rest => index_append rest i) (index_starves j).map

theorem readText_starves {n : Nat} {bytes text : Bytes} (h : writeText text = .ok bytes)
    (i : Index) : Starves n (readBody i 1) bytes := by
  obtain ⟨k, hk, h⟩ := Writer.bind_eq_ok h
  cases h
  have htake : Starves n (take k.toNat fun _ => .truncatedText) text := by
    rw [Writer.toNat_of_length16 hk]
    exact take_starves _ text
  exact (u16_starves k).bind (fun _ rest => u16_append rest k) htake.map

theorem readBody_starves {n : Nat} {c : Constant} {bytes : Bytes} (h : c.writeBody = .ok bytes)
    (i : Index) : Starves n (readBody i c.tag) bytes := by
  cases c with
  | utf8 text => exact readText_starves h i
  | rawUtf8 raw => exact readText_starves h i
  | integer value =>
    cases h
    exact (u32_starves _).map
  | float bits =>
    cases h
    exact (u32_starves _).map
  | long value =>
    cases h
    exact (u64_starves _).map
  | double bits =>
    cases h
    exact (u64_starves _).map
  | classInfo name | string name | methodType name | module name | package name =>
    cases h
    exact (index_starves name).map
  | fieldRef owner nameAndType =>
    cases h
    exact ofIndices_starves .fieldRef owner nameAndType
  | methodRef owner nameAndType isInterface =>
    cases h
    cases isInterface
    · exact ofIndices_starves (.methodRef · · false) owner nameAndType
    · exact ofIndices_starves (.methodRef · · true) owner nameAndType
  | nameAndType name descriptor =>
    cases h
    exact ofIndices_starves .nameAndType name descriptor
  | methodHandle kind member =>
    cases h
    have hkind : Starves n HandleKind.read [kind.tag] :=
      (u8_starves kind.tag).bind (b := []) (fun _ _ => rfl) .nil
    exact hkind.bind (fun _ rest => HandleKind.read_cons kind rest) (index_starves member).map
  | dynamic bootstrap nameAndType =>
    cases h
    exact ofIndices_starves .dynamic bootstrap nameAndType
  | invokeDynamic bootstrap nameAndType =>
    cases h
    exact ofIndices_starves .invokeDynamic bootstrap nameAndType

theorem read_starves {n : Nat} {c : Constant} {bytes : Bytes} (h : c.write = .ok bytes)
    (i : Index) : Starves n (Constant.read i) bytes := by
  obtain ⟨body, hbody, h⟩ := Writer.bind_eq_ok h
  cases h
  exact (u8_starves c.tag).bind (b := body) (fun _ _ => rfl) (readBody_starves hbody i)

end Constant

namespace Pool

theorem readEntries_starves {n : Nat} {cs : List Constant} (hcs : ∀ c ∈ cs, c.WellFormed)
    {bytes : Bytes} (h : Writer.items Constant.write cs = .ok bytes) (count : UInt16) {slots : Nat}
    {p : Pool} (hslots : (cs.foldl push p).count = p.count + slots) :
    Starves n (readEntries count slots p) bytes := by
  induction cs generalizing bytes slots p with
  | nil =>
    cases h
    exact .nil
  | cons c cs ih =>
    rw [Writer.items_cons] at h
    obtain ⟨a, ha, h⟩ := Writer.bind_eq_ok h
    obtain ⟨b, hb, h⟩ := Writer.bind_eq_ok h
    cases h
    rw [List.forall_mem_cons] at hcs
    rw [List.foldl_cons] at hslots
    have hgrows := count_le_foldl_push cs (p.push c)
    rw [count_push] at hgrows
    have hrest {left : Nat} (hleft : slots = c.width + left) :
        Starves n (readEntries count left (p.push c)) b :=
      ih hcs.2 hb (by rw [count_push]; omega)
    have hread := Constant.read_append hcs.1 ha p.nextIndex
    by_cases hwide : c.isWide = true
    · have hw : c.width = 2 := by rw [Constant.width, if_pos hwide]
      obtain ⟨left, rfl⟩ : ∃ left, slots = left + 1 + 1 := ⟨slots - 2, by omega⟩
      rw [readEntries]
      refine (Constant.read_starves ha _).bind (fun _ => hread) ?_
      rw [if_pos hwide]
      exact hrest (by omega)
    · have hw : c.width = 1 := by rw [Constant.width, if_neg hwide]
      obtain ⟨left, rfl⟩ : ∃ left, slots = left + 1 := ⟨slots - 1, by omega⟩
      rw [readEntries]
      refine (Constant.read_starves ha _).bind (fun _ => hread) ?_
      rw [if_neg hwide]
      exact hrest (by omega)

theorem read_starves {n : Nat} {p : Pool} (hp : p.WellFormed) {bytes : Bytes}
    (h : p.write = .ok bytes) : Starves n Pool.read bytes := by
  obtain ⟨count, hcount, h⟩ := Writer.bind_eq_ok h
  obtain ⟨b, hb, h⟩ := Writer.bind_eq_ok h
  cases h
  have htotal : (ofList p.toList).count = count.toNat := by
    rw [Writer.toNat_of_length16 hcount, Pool.count, table_ofList_toList, Pool.count]
  have hpos := count_le_foldl_push p.toList empty
  have hempty : empty.count = 1 := rfl
  rw [ofList] at htotal
  have h0 : count ≠ 0 := by
    rintro rfl
    have : (0 : UInt16).toNat = 0 := rfl
    omega
  refine (u16_starves count).bind (fun _ rest => u16_append rest count) ?_
  rw [if_neg h0]
  exact readEntries_starves hp hb count (by omega)

end Pool

/-! ## Class files -/

/-- The header of an attribute says how long its body is, so the attribute is cut in one of them
wherever it is cut, whatever the body is. -/
theorem Attribute.delimits {p : Pool} {a : Attribute} (ha : a.WellFormed p) (depth : Nat) :
    Delimits depth (Attribute.read p depth) Attribute.write a where
  recovers := Attribute.recovers p a ha depth
  starves bytes h := by
    obtain ⟨name, body⟩ := a
    rw [Attribute.write] at h
    obtain ⟨b, hb, h⟩ := Writer.bind_eq_ok h
    obtain ⟨length, hl, h⟩ := Writer.bind_eq_ok h
    cases h
    cases depth with
    | zero => exact fun _ _ _ _ => ⟨_, rfl⟩
    | succ depth =>
      have hblob : Starves (depth + 1) (blob length.toNat) b := by
        rw [Writer.toNat_of_length32 hl]
        exact take_starves _ b
      rw [Attribute.read, List.append_assoc]
      refine (index_starves name).bind (fun _ rest => index_append rest name) ?_
      refine (u32_starves length).bind (fun _ rest => u32_append rest length) ?_
      intro part hpart hlt hn
      obtain ⟨cause, herror⟩ := hblob hpart hlt hn
      exact ⟨cause, bind_of_eq_error herror⟩

theorem Member.delimits {p q : Pool} (h : q.table = p.table) {m : Member} (hm : m.WellFormed p)
    (depth : Nat) : Delimits depth (Member.read q depth) Member.write m where
  recovers := Member.recovers h hm depth
  starves bytes hw := by
    obtain ⟨as, has, hw⟩ := Writer.bind_eq_ok hw
    cases hw
    have hattributes := (Delimits.list16 fun a ha =>
      Attribute.delimits (Attribute.allWellFormed_iff.1 hm a ha) depth).starves has
    rw [Member.read, Attribute.read_congr h]
    simp only [List.append_assoc]
    refine (u16_starves _).bind (fun _ rest => u16_append rest _) ?_
    refine (index_starves _).bind (fun _ rest => index_append rest _) ?_
    exact (index_starves _).bind (fun _ rest => index_append rest _) hattributes.map

theorem Version.read_starves {n : Nat} (v : Version) : Starves n Version.read v.bytes :=
  (u16_starves _).bind (fun _ rest => u16_append rest _) (u16_starves _).map

namespace ClassFile

theorem read_starves {c : ClassFile} (hc : c.WellFormed) {bytes : Bytes}
    (h : c.toBytes = .ok bytes) (depth : Nat) : Starves depth (ClassFile.read depth) bytes := by
  obtain ⟨constants, hconstants, h⟩ := Writer.bind_eq_ok h
  obtain ⟨interfaces, hinterfaces, h⟩ := Writer.bind_eq_ok h
  obtain ⟨fields, hfields, h⟩ := Writer.bind_eq_ok h
  obtain ⟨methods, hmethods, h⟩ := Writer.bind_eq_ok h
  obtain ⟨attributes, hattributes, h⟩ := Writer.bind_eq_ok h
  cases h
  obtain ⟨p, hpool, htable⟩ := Pool.read_append hc.constants hconstants
  have hi := Delimits.list16 (n := depth) fun i (_ : i ∈ c.interfaces) => index_delimits i
  have hf := Delimits.list16 fun f hf => Member.delimits htable (hc.fields f hf) depth
  have hm := Delimits.list16 fun m hm => Member.delimits htable (hc.methods m hm) depth
  have ha := Delimits.list16 fun a ha =>
    Attribute.delimits (Attribute.allWellFormed_iff.1 hc.attributes a ha) depth
  simp only [List.append_assoc]
  refine (u32_starves magic).bind (fun _ rest => u32_append rest magic) ?_
  rw [if_neg (Decidable.not_not.2 rfl)]
  refine (Version.read_starves _).bind (fun _ rest => Version.read_append _ rest) ?_
  refine (Pool.read_starves hc.constants hconstants).bind (fun _ => hpool) ?_
  refine (u16_starves _).bind (fun _ rest => u16_append rest _) ?_
  refine (index_starves _).bind (fun _ rest => index_append rest _) ?_
  refine (optionalIndex_starves _).bind (fun _ rest => optionalIndex_append rest hc.superClass) ?_
  refine (hi.starves hinterfaces).bind (fun hn => hi.recovers hinterfaces hn) ?_
  refine (hf.starves hfields).bind (fun hn => hf.recovers hfields hn) ?_
  refine (hm.starves hmethods).bind (fun hn => hm.recovers hmethods hn) ?_
  rw [Attribute.read_congr htable]
  exact (ha.starves hattributes).map

/-- A class file that is cut short lacks bytes and nothing else, and what comes after a class file
is left over. -/
theorem parse_delimited {bytes : Bytes} {c : ClassFile} (h : ClassFile.parse bytes = .ok c) :
    (∀ part, part <+: bytes → part ≠ bytes →
      ∃ cause, ClassFile.parse part = .error (.read cause)) ∧
    ∀ more, more ≠ [] → ClassFile.parse (bytes ++ more) = .error (.trailingBytes more.length) := by
  have hc := wellFormed_of_parse h
  have hbytes := toBytes_of_read (parse_eq_ok h)
  constructor
  · intro part hpart hne
    have hlt : part.length < bytes.length :=
      Nat.lt_of_le_of_ne hpart.length_le fun e => hne (hpart.eq_of_length e)
    obtain ⟨cause, herror⟩ := read_starves hc hbytes part.length hpart hlt (Nat.le_refl _)
    refine ⟨cause, ?_⟩
    rw [ClassFile.parse, herror]
    rfl
  · intro more hmore
    have hlen : bytes.length ≤ (bytes ++ more).length := by simp
    obtain ⟨p, hread, -⟩ := read_append hc hbytes hlen more
    have hleft : (!more.isEmpty) = true := by simpa using hmore
    rw [ClassFile.parse, hread]
    change (if !more.isEmpty then _ else _) = _
    rw [if_pos hleft]
    rfl

theorem parse_delimited_unusual :
    (ClassFile.parse unusual).toBool = true ∧
      (∃ cause, ClassFile.parse unusual.dropLast = .error (.read cause)) ∧
      ClassFile.parse (unusual ++ unusual) = .error (.trailingBytes unusual.length) := by
  have h : (ClassFile.parse unusual).toBool = true := by decide +kernel
  cases hc : ClassFile.parse unusual with
  | error e => rw [hc] at h; cases h
  | ok c =>
    obtain ⟨hshort, hlong⟩ := parse_delimited hc
    exact ⟨rfl, hshort _ (List.dropLast_prefix _) (by decide +kernel), hlong _ (by decide +kernel)⟩

end ClassFile

end Repackage
