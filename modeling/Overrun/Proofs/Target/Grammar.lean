import Overrun.Target

/-! Which texts name a target, and what is said of the others. A text has exactly one way to be cut at its
separators, and its parts are then looked at from left to right: the first that is unknown or missing is
the one that is complained of. -/

namespace Overrun

namespace Text

variable {separator : Char} {text : String} {parts : List String}

/-- Whether some parts are what is left of a text once it is cut at every separator. -/
structure Parted (separator : Char) (text : String) (parts : List String) : Prop where
  nonempty : parts ≠ []
  apart : ∀ part ∈ parts, separator ∉ part.toList
  joined : (String.singleton separator).intercalate parts = text

theorem cut_eq_splitOn (separator : Char) (cs : List Char) :
    cut separator cs = cs.splitOn separator := by
  induction cs with
  | nil => rfl
  | cons c rest ih =>
    have nonempty := List.splitOn_ne_nil separator rest
    have step := List.splitOnP_cons_eq_if_modifyHead (p := (· == separator)) c rest
    rw [← List.splitOn_eq_splitOnP, ← List.splitOn_eq_splitOnP, ← ih] at step
    rw [← ih] at nonempty
    rw [step]
    show (if c = separator then [] :: cut separator rest else _) = _
    by_cases here : c = separator
    · rw [if_pos here, if_pos (beq_iff_eq.2 here)]
    · rw [if_neg here, if_neg fun same => here (beq_iff_eq.1 same)]
      cases later : cut separator rest with
      | nil => exact absurd later nonempty
      | cons field fields => rfl

theorem not_mem_of_mem_cut {cs field : List Char} (member : field ∈ cut separator cs) :
    separator ∉ field := by
  induction cs generalizing field with
  | nil =>
    rw [List.mem_singleton.1 member]
    exact List.not_mem_nil
  | cons c rest ih =>
    unfold cut at member
    split at member
    · rcases List.mem_cons.1 member with rfl | later
      · exact List.not_mem_nil
      · exact ih later
    · next other =>
      split at member
      · rw [List.mem_singleton.1 member, List.mem_singleton]
        exact fun same => other same.symm
      · next first fields later =>
        rcases List.mem_cons.1 member with rfl | onward
        · have apart := ih (later ▸ List.mem_cons_self)
          exact fun inside => (List.mem_cons.1 inside).elim (fun same => other same.symm) apart
        · exact ih (later ▸ List.mem_cons_of_mem _ onward)

/-- The fields of a text are the one way to cut it. -/
theorem fields_eq_iff : fields separator text = parts ↔ Parted separator text parts := by
  constructor
  · rintro rfl
    refine ⟨?_, ?_, ?_⟩
    · unfold fields
      rw [cut_eq_splitOn]
      exact fun none => List.splitOn_ne_nil _ _ (List.map_eq_nil_iff.1 none)
    · intro part member
      obtain ⟨field, held, rfl⟩ := List.mem_map.1 member
      rw [String.toList_ofList]
      exact not_mem_of_mem_cut held
    · apply String.toList_inj.1
      have plain : String.toList ∘ String.ofList = id := funext fun _ => String.toList_ofList
      unfold fields
      rw [String.toList_intercalate, String.toList_singleton, List.map_map, plain, List.map_id,
        cut_eq_splitOn, List.intercalate_splitOn]
  · rintro ⟨nonempty, apart, rfl⟩
    have plain : String.ofList ∘ String.toList = id := funext fun _ => String.ofList_toList
    have apart : ∀ field ∈ parts.map String.toList, separator ∉ field := by
      intro field member
      obtain ⟨part, held, rfl⟩ := List.mem_map.1 member
      exact apart part held
    unfold fields
    rw [String.toList_intercalate, String.toList_singleton, cut_eq_splitOn,
      List.splitOn_intercalate _ apart fun none => nonempty (List.map_eq_nil_iff.1 none),
      List.map_map, plain, List.map_id]

def Reads {α : Type} (text : α → String) (ofText? : String → Option α) : Prop :=
  ∀ s a, ofText? s = some a ↔ text a = s

theorem Reads.some {α : Type} {text : α → String} {ofText? : String → Option α}
    (reads : Reads text ofText?) (a : α) : ofText? (text a) = .some a :=
  (reads _ a).2 rfl

theorem Reads.eq_none_iff {α : Type} {text : α → String} {ofText? : String → Option α}
    (reads : Reads text ofText?) {s : String} : ofText? s = none ↔ ∀ a, text a ≠ s := by
  rw [Option.eq_none_iff_forall_ne_some]
  exact forall_congr' fun a => not_congr (reads s a)

end Text

theorem Architecture.reads : Text.Reads text ofText? := by
  intro s a
  unfold ofText?
  cases a <;> grind [text]

theorem OperatingSystem.reads : Text.Reads text ofText? := by
  intro s os
  unfold ofText?
  cases os <;> grind [text]

theorem Abi.reads : Text.Reads text ofText? := by
  intro s abi
  unfold ofText?
  cases abi <;> grind [text]

namespace Target

/-- Why a text does not name a target, by the parts that it is cut into. -/
inductive Refused (s : String) : List String → Error → Prop where
  | architecture {part : String} (rest : List String)
      (unknown : ∀ architecture : Architecture, architecture.text ≠ part) :
      Refused s (part :: rest) .architecture
  | osMissing (architecture : Architecture) : Refused s [architecture.text] (.format s)
  | os (architecture : Architecture) {part : String} (rest : List String)
      (unknown : ∀ os : OperatingSystem, os.text ≠ part) :
      Refused s (architecture.text :: part :: rest) .os
  | abiMissing (architecture : Architecture) (os : OperatingSystem) :
      Refused s [architecture.text, os.text] (.format s)
  | abi (architecture : Architecture) (os : OperatingSystem) {part : String} (rest : List String)
      (unknown : ∀ abi : Abi, abi.text ≠ part) :
      Refused s (architecture.text :: os.text :: part :: rest) .abi
  | tooMany (t : Target) (part : String) (rest : List String) :
      Refused s (t.architecture.text :: t.os.text :: t.abi.text :: part :: rest) (.format s)
  | combination {t : Target} (incoherent : ¬t.Coherent) :
      Refused s [t.architecture.text, t.os.text, t.abi.text] .combination

variable {s : String} {t : Target} {e : Error}

theorem Refused.parse (refused : Refused s (Text.fields '-' s) e) : parse s = .error e := by
  unfold Target.parse
  generalize Text.fields '-' s = parts at refused
  cases refused with
  | architecture rest unknown => simp only [Architecture.reads.eq_none_iff.2 unknown]
  | osMissing architecture => simp only [Architecture.reads.some]
  | os architecture rest unknown =>
    simp only [Architecture.reads.some, OperatingSystem.reads.eq_none_iff.2 unknown]
  | abiMissing architecture os => simp only [Architecture.reads.some, OperatingSystem.reads.some]
  | abi architecture os rest unknown =>
    simp only [Architecture.reads.some, OperatingSystem.reads.some,
      Abi.reads.eq_none_iff.2 unknown]
  | tooMany t part rest =>
    simp only [Architecture.reads.some, OperatingSystem.reads.some, Abi.reads.some]
  | combination incoherent =>
    simp only [Architecture.reads.some, OperatingSystem.reads.some, Abi.reads.some]
    exact if_neg incoherent

theorem parse_of_coherent (parts : Text.fields '-' s = [t.architecture.text, t.os.text, t.abi.text])
    (coherent : t.Coherent) : parse s = .ok t := by
  unfold Target.parse
  rw [parts]
  simp only [Architecture.reads.some, OperatingSystem.reads.some, Abi.reads.some]
  exact if_pos coherent

theorem refused_or {parts : List String} (nonempty : parts ≠ []) (s : String) :
    (∃ t : Target, parts = [t.architecture.text, t.os.text, t.abi.text] ∧ t.Coherent) ∨
      ∃ e, Refused s parts e := by
  obtain ⟨part, parts, rfl⟩ := List.exists_cons_of_ne_nil nonempty
  cases known : Architecture.ofText? part with
  | none => exact .inr ⟨_, .architecture parts (Architecture.reads.eq_none_iff.1 known)⟩
  | some architecture =>
    obtain rfl := (Architecture.reads _ _).1 known
    cases parts with
    | nil => exact .inr ⟨_, .osMissing architecture⟩
    | cons part parts =>
      cases known : OperatingSystem.ofText? part with
      | none =>
        exact .inr ⟨_, .os architecture parts (OperatingSystem.reads.eq_none_iff.1 known)⟩
      | some os =>
        obtain rfl := (OperatingSystem.reads _ _).1 known
        cases parts with
        | nil => exact .inr ⟨_, .abiMissing architecture os⟩
        | cons part parts =>
          cases known : Abi.ofText? part with
          | none =>
            exact .inr ⟨_, .abi architecture os parts (Abi.reads.eq_none_iff.1 known)⟩
          | some abi =>
            obtain rfl := (Abi.reads _ _).1 known
            let t : Target := ⟨architecture, os, abi⟩
            cases parts with
            | cons part parts => exact .inr ⟨_, .tooMany t part parts⟩
            | nil =>
              by_cases coherent : t.Coherent
              · exact .inl ⟨t, rfl, coherent⟩
              · exact .inr ⟨_, .combination coherent⟩

theorem parse_decides (s : String) :
    (∃ t, parse s = .ok t ∧
      Text.fields '-' s = [t.architecture.text, t.os.text, t.abi.text] ∧ t.Coherent) ∨
    ∃ e, parse s = .error e ∧ Refused s (Text.fields '-' s) e := by
  have parted : Text.Parted '-' s (Text.fields '-' s) := Text.fields_eq_iff.1 rfl
  rcases refused_or parted.nonempty s with ⟨t, parts, coherent⟩ | ⟨e, refused⟩
  · exact .inl ⟨t, parse_of_coherent parts coherent, parts, coherent⟩
  · exact .inr ⟨e, refused.parse, refused⟩

theorem fields_eq_parts_iff :
    Text.fields '-' s = [t.architecture.text, t.os.text, t.abi.text] ↔ s = t.text := by
  have joined : "-".intercalate [t.architecture.text, t.os.text, t.abi.text] = t.text := by
    unfold Target.text
    cases t.architecture <;> cases t.os <;> cases t.abi <;> rfl
  rw [Text.fields_eq_iff, ← joined]
  constructor
  · exact fun parted => parted.joined.symm
  · rintro rfl
    refine ⟨List.cons_ne_nil _ _, ?_, rfl⟩
    cases t.architecture <;> cases t.os <;> cases t.abi <;> decide

/-- A text is accepted if it is how a target with a fitting ABI is written. Every other one is refused
for the first reason there is, going through its parts from left to right. -/
theorem parse_exact (s : String) :
    (∀ t, parse s = .ok t ↔ s = t.text ∧ (t.os = .darwin ↔ t.abi = .none)) ∧
    ∀ e, parse s = .error e ↔ ∃ parts, Text.Parted '-' s parts ∧ Refused s parts e := by
  constructor
  · intro t
    constructor
    · intro accepted
      rcases parse_decides s with ⟨other, same, parts, coherent⟩ | ⟨e, refused, -⟩
      · cases accepted.symm.trans same
        exact ⟨fields_eq_parts_iff.1 parts, coherent⟩
      · rw [accepted] at refused
        contradiction
    · rintro ⟨written, coherent⟩
      exact parse_of_coherent (fields_eq_parts_iff.2 written) coherent
  · intro e
    constructor
    · intro failed
      rcases parse_decides s with ⟨t, accepted, -⟩ | ⟨other, same, refused⟩
      · rw [failed] at accepted
        contradiction
      · cases failed.symm.trans same
        exact ⟨_, Text.fields_eq_iff.1 rfl, refused⟩
    · rintro ⟨parts, parted, refused⟩
      rw [← Text.fields_eq_iff.2 parted] at refused
      exact refused.parse

end Target

end Overrun
