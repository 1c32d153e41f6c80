import Overrun.Block.Catalog
import Overrun.Proofs.Block.Canonical
import Overrun.Proofs.Faults

/-! A catalog only grows: what a handle stands for, it stands for in every later catalog. All the vectors
in it are in canonical form, so each of their blocks holds something. -/

namespace Overrun

namespace Pool

variable {α : Type} {p q : Pool α} {handle : Nat} {value : α}

theorem get?_of_prefix (grown : p.items <+: q.items) (held : p.get? handle = some value) :
    q.get? handle = some value := by
  obtain ⟨more, same⟩ := grown
  obtain ⟨inside, -⟩ := List.getElem?_eq_some_iff.1 held
  unfold get? at held ⊢
  rw [← same, List.getElem?_append_left inside]
  exact held

variable [DecidableEq α]

theorem prefix_intern (p : Pool α) (value : α) : p.items <+: (p.intern value).2.items := by
  unfold intern
  split
  · exact List.prefix_refl _
  · exact List.prefix_append _ _

theorem get?_intern (p : Pool α) (value : α) :
    (p.intern value).2.get? (p.intern value).1 = some value := by
  unfold intern
  split
  · next handle found =>
    obtain ⟨inside, same, -⟩ := List.idxOf?_eq_some_iff.1 found
    exact List.getElem?_eq_some_iff.2 ⟨inside, same⟩
  · exact List.getElem?_concat_length

theorem mem_intern {other : α} (member : other ∈ (p.intern value).2.items) :
    other = value ∨ other ∈ p.items := by
  unfold intern at member
  split at member
  · exact .inr member
  · rcases List.mem_append.1 member with old | new
    · exact .inr old
    · exact .inl (List.mem_singleton.1 new)

theorem idxOf?_intern (p : Pool α) (value : α) :
    (p.intern value).2.items.idxOf? value = some (p.intern value).1 := by
  unfold intern
  split
  · next handle found => exact found
  · next missing =>
    have new := List.idxOf?_eq_none_iff.1 missing
    refine List.idxOf?_eq_some_iff.2 ⟨by simp, by simp, fun other early same => new ?_⟩
    rw [List.getElem_append_left early] at same
    exact same ▸ List.getElem_mem early

theorem idxOf?_of_prefix (grown : p.items <+: q.items)
    (found : p.items.idxOf? value = some handle) : q.items.idxOf? value = some handle := by
  obtain ⟨more, same⟩ := grown
  obtain ⟨inside, held, first⟩ := List.idxOf?_eq_some_iff.1 found
  rw [← same]
  refine List.idxOf?_eq_some_iff.2 ⟨?_, ?_, fun other early => ?_⟩
  · rw [List.length_append]
    exact Nat.lt_add_right _ inside
  · rw [List.getElem_append_left inside]
    exact held
  · rw [List.getElem_append_left (Nat.lt_trans early inside)]
    exact first other early

theorem intern_again (grown : (p.intern value).2.items <+: q.items) :
    q.intern value = ((p.intern value).1, q) := by
  have found := idxOf?_of_prefix grown (idxOf?_intern p value)
  rw [intern, found]

end Pool

namespace Catalog

structure Extends (c after : Catalog) : Prop where
  vectors : c.vectors.items <+: after.vectors.items
  globals : c.globals.items <+: after.globals.items

variable {c after last : Catalog} {v : VectorRef} {blocks : List StackBlock} {b : StackBlock}

theorem Extends.refl (c : Catalog) : Extends c c :=
  ⟨List.prefix_refl _, List.prefix_refl _⟩

theorem Extends.trans (first : Extends c after) (second : Extends after last) : Extends c last :=
  ⟨first.vectors.trans second.vectors, first.globals.trans second.globals⟩

theorem extends_internVector (c : Catalog) (blocks : List StackBlock) :
    Extends c (c.internVector blocks).2 :=
  ⟨Pool.prefix_intern _ _, List.prefix_refl _⟩

theorem extends_internGlobal (c : Catalog) (block : GlobalBlock) :
    Extends c (c.internGlobal block).2 :=
  ⟨List.prefix_refl _, Pool.prefix_intern _ _⟩

theorem vector_eq_ok_iff : c.vector v = .ok blocks ↔ c.vectors.get? v.index = some blocks := by
  unfold vector
  split
  · next held => simp [held]
  · next missing => simp [missing]

theorem block_eq_ok_iff {ref : BlockRef} :
    c.block ref = .ok b ↔
      ∃ blocks, c.vector ref.vector = .ok blocks ∧ blocks[ref.index]? = some b := by
  unfold Catalog.block
  rw [bind_eq_ok]
  refine exists_congr fun blocks => and_congr_right fun _ => ?_
  split
  · next held => simp [held, pure, Except.pure]
  · next missing => simp [missing, throw, throwThe, MonadExceptOf.throw]

theorem global_eq_ok_iff {g : GlobalRef} {block : GlobalBlock} :
    c.global g = .ok block ↔ c.globals.get? g.index = some block := by
  unfold Catalog.global
  split
  · next held => simp [held]
  · next missing => simp [missing]

theorem Extends.vector (grown : Extends c after) (known : c.vector v = .ok blocks) :
    after.vector v = .ok blocks :=
  vector_eq_ok_iff.2 (Pool.get?_of_prefix grown.vectors (vector_eq_ok_iff.1 known))

theorem Extends.block (grown : Extends c after) {ref : BlockRef} (known : c.block ref = .ok b) :
    after.block ref = .ok b := by
  obtain ⟨blocks, there, held⟩ := block_eq_ok_iff.1 known
  exact block_eq_ok_iff.2 ⟨blocks, grown.vector there, held⟩

theorem Extends.global (grown : Extends c after) {g : GlobalRef} {block : GlobalBlock}
    (known : c.global g = .ok block) : after.global g = .ok block :=
  global_eq_ok_iff.2 (Pool.get?_of_prefix grown.globals (global_eq_ok_iff.1 known))

theorem global_internGlobal (c : Catalog) (block : GlobalBlock) :
    (c.internGlobal block).2.global (c.internGlobal block).1 = .ok block :=
  global_eq_ok_iff.2 (Pool.get?_intern _ _)

theorem Extends.internGlobal_again {block : GlobalBlock}
    (grown : Extends (c.internGlobal block).2 after) :
    after.internGlobal block = ((c.internGlobal block).1, after) := by
  have found := Pool.intern_again grown.globals
  rw [internGlobal, found]
  rfl

def Canonical (c : Catalog) : Prop :=
  ∀ blocks ∈ c.vectors.items, ∃ given, blocks = StackBlock.canonical given

theorem canonical_empty : (∅ : Catalog).Canonical :=
  fun _ absurd => by contradiction

theorem Canonical.internVector (canonical : c.Canonical) (blocks : List StackBlock) :
    (c.internVector blocks).2.Canonical := by
  intro form member
  rcases Pool.mem_intern member with rfl | old
  · exact ⟨blocks, rfl⟩
  · exact canonical form old

theorem Canonical.size_pos (canonical : c.Canonical) (known : c.vector v = .ok blocks)
    (member : b ∈ blocks) : 0 < b.size := by
  have there : blocks ∈ c.vectors.items := List.mem_of_getElem? (vector_eq_ok_iff.1 known)
  obtain ⟨given, rfl⟩ := canonical blocks there
  exact StackBlock.size_pos_of_mem_canonical member

end Catalog

end Overrun
