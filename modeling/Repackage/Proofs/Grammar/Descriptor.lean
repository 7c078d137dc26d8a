import Repackage.Proofs.Grammar.Classes
import Repackage.Proofs.Grammar.Parser

/-!
# Descriptors are written as they were read

The parsers of descriptors take the characters that are written for what they read. A
descriptor that can be read is thus the text of its tree (`Descriptor.render_of_parse`).
-/

namespace Repackage

/-! ## Types -/

open Repackage.Parser

theorem BaseType.letter_of_ofLetter? {c : Char} {t : BaseType} (h : BaseType.ofLetter? c = some t) :
    t.letter = c := by
  unfold BaseType.ofLetter? at h
  split at h <;> cases h <;> rfl

theorem BaseType.parser_spells : BaseType.parser.Spells BaseType.chars := by
  intro cs t rest h
  obtain ⟨c, left, hc, h⟩ := bind_eq_ok h
  cases c with
  | none => cases h
  | some c =>
    dsimp only at h
    cases ht : BaseType.ofLetter? c with
    | none => rw [ht] at h; cases h
    | some t' =>
      rw [ht] at h
      obtain ⟨rfl, rfl⟩ := pure_eq_ok h
      rw [next_eq_ok hc, BaseType.chars, BaseType.letter_of_ofLetter? ht]
      rfl

theorem BinaryName.text_of_ofString {text : String} {name : BinaryName}
    (h : BinaryName.ofString text = .ok name) : name.text = text := by
  unfold BinaryName.ofString at h
  split at h
  · cases h; rfl
  · cases h

theorem BinaryName.parser_spells : BinaryName.parser.Spells BinaryName.chars := by
  intro cs name rest h
  obtain ⟨u, left, hL, h⟩ := bind_eq_ok h
  obtain ⟨taken, left', htaken, h⟩ := bind_eq_ok h
  obtain ⟨c, left'', hc, h⟩ := bind_eq_ok h
  obtain ⟨rfl, rfl⟩ := takeWhile_eq_ok htaken
  cases c with
  | none => cases h
  | some c =>
    -- what stopped the name is its semicolon
    have hdrop := next_eq_ok hc
    have hstop : c = ';' := by
      have := List.head?_dropWhile_not (· ≠ ';') left
      rw [hdrop] at this
      simpa using this
    have hleft := List.takeWhile_append_dropWhile (p := (· ≠ ';')) (l := left)
    rw [hdrop, hstop] at hleft
    dsimp only at h
    cases hname : BinaryName.ofString (String.ofList (left.takeWhile (· ≠ ';'))) with
    | error e => rw [hname] at h; cases h
    | ok name' =>
      rw [hname] at h
      obtain ⟨rfl, rfl⟩ := pure_eq_ok h
      rw [expect_eq_ok hL, BinaryName.chars, BinaryName.text_of_ofString hname,
        String.toList_ofList, List.append_assoc]
      exact congrArg ('L' :: ·) hleft.symm

/-- Brackets that were counted are written again. -/
theorem replicate_of_takeWhile {c : Char} {cs rest : List Char} (h : cs.head? = some c)
    (hrest : rest = cs.dropWhile (· = c)) :
    cs = List.replicate ((cs.takeWhile (· = c)).length - 1 + 1) c ++ rest := by
  have hmem : ∀ d ∈ cs.takeWhile (· = c), d = c := fun d hd => by
    simpa using List.all_eq_true.1 List.all_takeWhile d hd
  have hpos : (cs.takeWhile (· = c)).length ≠ 0 := by
    cases cs with
    | nil => cases h
    | cons d cs =>
      cases h
      simp
  rw [Nat.sub_add_cancel (Nat.pos_of_ne_zero hpos), ← List.eq_replicate_of_mem hmem, hrest,
    List.takeWhile_append_dropWhile]

theorem RefType.parser_spells : RefType.parser.Spells RefType.chars := by
  intro cs t rest hp
  obtain ⟨c, left, hc, h⟩ := bind_eq_ok hp
  obtain ⟨hhead, rfl⟩ := peek_eq_ok hc
  split at h
  · cases h
  · obtain ⟨name, left, hname, h⟩ := bind_eq_ok h
    obtain ⟨rfl, rfl⟩ := pure_eq_ok h
    exact BinaryName.parser_spells hname
  · obtain ⟨dimensions, left, hdim, h⟩ := bind_eq_ok h
    obtain ⟨rfl, hleft⟩ := takeWhile_eq_ok hdim
    have hbrackets := replicate_of_takeWhile hhead.symm hleft
    obtain ⟨c, left', hc, helement⟩ := bind_eq_ok h
    obtain ⟨-, rfl⟩ := peek_eq_ok hc
    split at helement
    · obtain ⟨name, left, hname, h⟩ := bind_eq_ok helement
      obtain ⟨rfl, rfl⟩ := pure_eq_ok h
      rw [RefType.chars, List.append_assoc, ← BinaryName.parser_spells hname]
      exact hbrackets
    · obtain ⟨base, left, hbase, h⟩ := bind_eq_ok helement
      obtain ⟨rfl, rfl⟩ := pure_eq_ok h
      rw [RefType.chars, List.append_assoc, ← BaseType.parser_spells hbase]
      exact hbrackets
  · cases h

theorem FieldType.parser_spells : FieldType.parser.Spells FieldType.chars := by
  intro cs t rest hp
  obtain ⟨c, left, hc, h⟩ := bind_eq_ok hp
  obtain ⟨hhead, rfl⟩ := peek_eq_ok hc
  split at h
  · cases h
  · obtain ⟨t, left, ht, h⟩ := bind_eq_ok h
    obtain ⟨rfl, rfl⟩ := pure_eq_ok h
    exact RefType.parser_spells ht
  · obtain ⟨t, left, ht, h⟩ := bind_eq_ok h
    obtain ⟨rfl, rfl⟩ := pure_eq_ok h
    exact RefType.parser_spells ht
  · obtain ⟨t, left, ht, h⟩ := bind_eq_ok h
    obtain ⟨rfl, rfl⟩ := pure_eq_ok h
    exact BaseType.parser_spells ht

theorem FieldType.chars_ne_nil (t : FieldType) : t.chars ≠ [] := by
  cases t with
  | base t => exact List.cons_ne_nil _ _
  | ref t => cases t <;> exact List.cons_ne_nil _ _

theorem MethodType.parser_spells : MethodType.parser.Spells MethodType.chars := by
  intro cs t rest h
  obtain ⟨u, left, hopen, h⟩ := bind_eq_ok h
  obtain ⟨parameters, left', hparameters, h⟩ := bind_eq_ok h
  obtain ⟨void, left'', hvoid, h⟩ := bind_eq_ok h
  have hcs := expect_eq_ok hopen
  rw [(FieldType.parser_spells.reads.manyUntil FieldType.chars_ne_nil ')' hparameters).1,
    accept_eq_ok hvoid] at hcs
  cases void with
  | true =>
    obtain ⟨rfl, rfl⟩ := pure_eq_ok h
    rw [hcs]
    simp [MethodType.chars]
  | false =>
    obtain ⟨result, left, hresult, h⟩ := bind_eq_ok h
    obtain ⟨rfl, rfl⟩ := pure_eq_ok h
    rw [hcs, FieldType.parser_spells hresult]
    simp [MethodType.chars]

/-! ## Descriptors -/

theorem Descriptor.parser_spells : Descriptor.parser.Spells Descriptor.chars := by
  intro cs d rest hp
  obtain ⟨c, left, hc, h⟩ := bind_eq_ok hp
  obtain ⟨hhead, rfl⟩ := peek_eq_ok hc
  split at h
  · obtain ⟨t, left, ht, h⟩ := bind_eq_ok h
    obtain ⟨rfl, rfl⟩ := pure_eq_ok h
    exact MethodType.parser_spells ht
  · obtain ⟨t, left, ht, h⟩ := bind_eq_ok h
    obtain ⟨rfl, rfl⟩ := pure_eq_ok h
    exact FieldType.parser_spells ht

theorem Descriptor.render_of_parse {text : String} {d : Descriptor}
    (h : Descriptor.parse text = .ok d) : d.render = text :=
  (Descriptor.parser_spells.reads.parseAll h).1

/-! ## Names -/

section Names

variable {f : BinaryName → BinaryName}

theorem RefType.mapNames_eq_self {t : RefType} (h : ∀ name ∈ t.names, f name = name) :
    t.mapNames f = t := by
  cases t with
  | object name => rw [RefType.mapNames, h name List.mem_cons_self]
  | objectArray extra name => rw [RefType.mapNames, h name List.mem_cons_self]
  | primitiveArray extra base => rfl

theorem FieldType.mapNames_eq_self {t : FieldType} (h : ∀ name ∈ t.names, f name = name) :
    t.mapNames f = t := by
  cases t with
  | base t => rfl
  | ref t => rw [FieldType.mapNames, RefType.mapNames_eq_self h]

theorem MethodType.mapNames_eq_self {t : MethodType} (h : ∀ name ∈ t.names, f name = name) :
    t.mapNames f = t := by
  obtain ⟨parameters, result⟩ := t
  have hparameters : parameters.map (FieldType.mapNames f) = parameters := by
    refine (List.map_congr_left fun t ht => ?_).trans (List.map_id parameters)
    exact FieldType.mapNames_eq_self fun name hn =>
      h name (List.mem_append_left _ (List.mem_flatMap.2 ⟨t, ht, hn⟩))
  have hresult : result.map (FieldType.mapNames f) = result := by
    cases result with
    | none => rfl
    | some t =>
      exact congrArg some (FieldType.mapNames_eq_self fun name hn =>
        h name (List.mem_append_right _ hn))
  rw [MethodType.mapNames, hparameters, hresult]

theorem Descriptor.mapNames_eq_self {d : Descriptor} (h : ∀ name ∈ d.names, f name = name) :
    d.mapNames f = d := by
  cases d with
  | field t => exact congrArg _ (FieldType.mapNames_eq_self h)
  | method t => exact congrArg _ (MethodType.mapNames_eq_self h)

end Names

end Repackage
