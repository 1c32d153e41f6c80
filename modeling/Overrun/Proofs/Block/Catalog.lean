import Overrun.Proofs.Block.Growing
import Overrun.Proofs.Block.Pool

/-! The handles of a catalog stand for what they were given for, in whatever order vectors and global
blocks are taken in: equal handles for equal forms, numbered in order of first appearance, and good for
good. -/

namespace Overrun.Catalog

inductive Request where
  | vector (blocks : List StackBlock)
  | global (block : GlobalBlock)

inductive Handle where
  | vector (v : VectorRef)
  | global (g : GlobalRef)

def serve (c : Catalog) : Request → Handle × Catalog
  | .vector blocks => (c.internVector blocks).map Handle.vector id
  | .global block => (c.internGlobal block).map Handle.global id

def serveAll (c : Catalog) : List Request → List Handle × Catalog
  | [] => ([], c)
  | request :: rest =>
    let (handle, c) := c.serve request
    let (later, last) := c.serveAll rest
    (handle :: later, last)

/-- Vectors and global blocks are kept on shelves of their own. To a shelf belong the requests that come
to some form, the handles with a number and what a catalog holds under each. -/
structure Shelf (φ : Type) where
  form? : Request → Option φ
  handle : Nat → Handle
  content : Catalog → Nat → Except Fault φ

def vectorShelf : Shelf (List StackBlock) where
  form?
    | .vector blocks => some (StackBlock.canonical blocks)
    | .global _ => none
  handle number := .vector ⟨number⟩
  content c number := c.vector ⟨number⟩

def globalShelf : Shelf GlobalBlock where
  form?
    | .vector _ => none
    | .global block => some block
  handle number := .global ⟨number⟩
  content c number := c.global ⟨number⟩

def Shelf.forms {φ : Type} (s : Shelf φ) (requests : List Request) : List φ :=
  requests.filterMap s.form?

def holding (requests : List Request) : Catalog :=
  ⟨.holding (vectorShelf.forms requests), .holding (globalShelf.forms requests)⟩

def answer (requests : List Request) : Request → Handle
  | .vector blocks =>
    vectorShelf.handle (Pool.rank (vectorShelf.forms requests) (StackBlock.canonical blocks))
  | .global block => globalShelf.handle (Pool.rank (globalShelf.forms requests) block)

section Serving

variable {requests before : List Request} {request : Request}

theorem forms_append {φ : Type} (s : Shelf φ) (first second : List Request) :
    s.forms (first ++ second) = s.forms first ++ s.forms second :=
  List.filterMap_append

theorem mem_forms {φ : Type} {s : Shelf φ} {form : φ} (member : request ∈ requests)
    (same : s.form? request = some form) : form ∈ s.forms requests :=
  List.mem_filterMap.2 ⟨request, member, same⟩

theorem serve_holding (before : List Request) (request : Request) :
    (holding before).serve request =
      (answer (before ++ [request]) request, holding (before ++ [request])) := by
  cases request with
  | vector blocks =>
    have added : vectorShelf.forms (before ++ [.vector blocks]) =
        vectorShelf.forms before ++ [StackBlock.canonical blocks] := forms_append _ _ _
    have kept : globalShelf.forms (before ++ [.vector blocks]) = globalShelf.forms before :=
      (forms_append _ _ _).trans (List.append_nil _)
    simp only [serve, internVector, holding, Pool.intern_holding, answer, added, kept]
    rfl
  | global block =>
    have added : globalShelf.forms (before ++ [.global block]) =
        globalShelf.forms before ++ [block] := forms_append _ _ _
    have kept : vectorShelf.forms (before ++ [.global block]) = vectorShelf.forms before :=
      (forms_append _ _ _).trans (List.append_nil _)
    simp only [serve, internGlobal, holding, Pool.intern_holding, answer, added, kept]
    rfl

theorem answer_append (member : request ∈ requests) (rest : List Request) :
    answer (requests ++ rest) request = answer requests request := by
  cases request with
  | vector blocks =>
    have known : StackBlock.canonical blocks ∈ vectorShelf.forms requests := mem_forms member rfl
    simp only [answer, forms_append, Pool.rank_append known]
  | global block =>
    have known : block ∈ globalShelf.forms requests := mem_forms member rfl
    simp only [answer, forms_append, Pool.rank_append known]

theorem serveAll_holding (before requests : List Request) :
    (holding before).serveAll requests =
      (requests.map (answer (before ++ requests)), holding (before ++ requests)) := by
  induction requests generalizing before with
  | nil => rw [List.append_nil, serveAll, List.map_nil]
  | cons request rest ih =>
    have first := answer_append (List.mem_append_right before (List.mem_singleton_self request)) rest
    rw [List.append_assoc, List.singleton_append] at first
    simp only [serveAll, serve_holding, ih, List.append_assoc, List.singleton_append,
      List.map_cons, first]

end Serving

def handles (requests : List Request) : List Handle :=
  ((∅ : Catalog).serveAll requests).1

def after (requests : List Request) : Catalog :=
  ((∅ : Catalog).serveAll requests).2

def Shelf.formAt? {φ : Type} (s : Shelf φ) (requests : List Request) (i : Nat) : Option φ :=
  requests[i]?.bind s.form?

/-- What holds of a shelf, whatever has been asked for. -/
structure Interned {φ : Type} [DecidableEq φ] (s : Shelf φ) (requests : List Request) : Prop where
  answered : ∀ i form, s.formAt? requests i = some form →
    (handles requests)[i]? = some (s.handle (Pool.rank (s.forms requests) form))
  numbered : ∀ number, number < (s.forms requests).eraseDups.length ↔
    ∃ i form, s.formAt? requests i = some form ∧
      (handles requests)[i]? = some (s.handle number)
  same_iff : ∀ i j first second, s.formAt? requests i = some first →
    s.formAt? requests j = some second →
    ((handles requests)[i]? = (handles requests)[j]? ↔ first = second)
  kept : ∀ i form number, s.formAt? requests i = some form →
    (handles requests)[i]? = some (s.handle number) →
    ∀ later, i < later → s.content (after (requests.take later)) number = .ok form
  /-- A store of the forms with a table of their handles beside it answers no differently, and the two
  stay inverse to each other. -/
  tabled : ∀ i form, s.formAt? requests i = some form →
    let store := Pool.Indexed.holding (s.forms (requests.take i))
    store.InStep ∧ (handles requests)[i]? = some (s.handle (store.intern form).1)

structure Shelf.Sound {φ : Type} [DecidableEq φ] (s : Shelf φ) : Prop where
  handle_inj : ∀ first second, s.handle first = s.handle second → first = second
  answer_eq : ∀ requests request form, s.form? request = some form →
    answer requests request = s.handle (Pool.rank (s.forms requests) form)
  content_eq : ∀ requests number form, (Pool.holding (s.forms requests)).get? number = some form →
    s.content (holding requests) number = .ok form

theorem sound_vectorShelf : vectorShelf.Sound where
  handle_inj _ _ same := by
    cases same
    rfl
  answer_eq requests request form same := by
    cases request with
    | vector blocks =>
      cases same
      rfl
    | global block => contradiction
  content_eq requests number form held := by
    show (holding requests).vector ⟨number⟩ = .ok form
    exact vector_eq_ok_iff.2 held

theorem sound_globalShelf : globalShelf.Sound where
  handle_inj _ _ same := by
    cases same
    rfl
  answer_eq requests request form same := by
    cases request with
    | vector blocks => contradiction
    | global block =>
      cases same
      rfl
  content_eq requests number form held := by
    show (holding requests).global ⟨number⟩ = .ok form
    exact global_eq_ok_iff.2 held

section Shelves

variable {φ : Type} {s : Shelf φ} {requests : List Request} {i : Nat} {form : φ}

theorem handles_eq (requests : List Request) : handles requests = requests.map (answer requests) :=
  congrArg Prod.fst (serveAll_holding [] requests)

theorem after_eq (requests : List Request) : after requests = holding requests :=
  congrArg Prod.snd (serveAll_holding [] requests)

theorem mem_forms_iff : form ∈ s.forms requests ↔ ∃ i, s.formAt? requests i = some form := by
  constructor
  · intro member
    obtain ⟨request, there, comes⟩ := List.mem_filterMap.1 member
    obtain ⟨i, held⟩ := List.mem_iff_getElem?.1 there
    exact ⟨i, Option.bind_eq_some_iff.2 ⟨request, held, comes⟩⟩
  · rintro ⟨i, asked⟩
    obtain ⟨request, there, comes⟩ := Option.bind_eq_some_iff.1 asked
    exact mem_forms (List.mem_of_getElem? there) comes

variable [DecidableEq φ]

theorem Shelf.Sound.answered (sound : s.Sound) (asked : s.formAt? requests i = some form) :
    (handles requests)[i]? = some (s.handle (Pool.rank (s.forms requests) form)) := by
  obtain ⟨request, there, comes⟩ := Option.bind_eq_some_iff.1 asked
  rw [handles_eq, List.getElem?_map, there, Option.map_some, sound.answer_eq _ _ _ comes]

theorem Shelf.Sound.handle_iff (sound : s.Sound) (asked : s.formAt? requests i = some form)
    (number : Nat) :
    (handles requests)[i]? = some (s.handle number) ↔
      Pool.rank (s.forms requests) form = number := by
  rw [sound.answered asked]
  constructor
  · intro given
    exact sound.handle_inj _ _ (Option.some.inj given)
  · rintro rfl
    rfl

theorem rank_forms_take (early : form ∈ s.forms (requests.take i)) :
    Pool.rank (s.forms requests) form = Pool.rank (s.forms (requests.take i)) form := by
  rw [← Pool.rank_append early (s.forms (requests.drop i)), ← forms_append,
    List.take_append_drop]

omit [DecidableEq φ] in
theorem forms_take_succ (asked : s.formAt? requests i = some form) :
    s.forms (requests.take (i + 1)) = s.forms (requests.take i) ++ [form] := by
  obtain ⟨request, there, comes⟩ := Option.bind_eq_some_iff.1 asked
  rw [List.take_add_one, there, forms_append, Option.toList_some, Shelf.forms, Shelf.forms,
    List.filterMap_cons_some comes, List.filterMap_nil]

theorem Shelf.Sound.interned (sound : s.Sound) (requests : List Request) :
    Interned s requests where
  answered _ _ := sound.answered
  numbered number := by
    rw [← Pool.exists_rank_eq_iff]
    constructor
    · rintro ⟨form, member, ranked⟩
      obtain ⟨i, asked⟩ := mem_forms_iff.1 member
      exact ⟨i, form, asked, (sound.handle_iff asked number).2 ranked⟩
    · rintro ⟨i, form, asked, given⟩
      exact ⟨form, mem_forms_iff.2 ⟨i, asked⟩, (sound.handle_iff asked number).1 given⟩
  same_iff i j first second firstAsked secondAsked := by
    rw [sound.answered secondAsked, sound.handle_iff firstAsked,
      Pool.rank_inj (mem_forms_iff.2 ⟨i, firstAsked⟩)]
  kept i form number asked given later past := by
    have inside : s.formAt? (requests.take later) i = some form := by
      rw [Shelf.formAt?, List.getElem?_take_of_lt past]
      exact asked
    have early := mem_forms_iff.2 ⟨i, inside⟩
    rw [sound.handle_iff asked, rank_forms_take early] at given
    rw [after_eq, ← given]
    exact sound.content_eq _ _ _ (Pool.get?_holding early)
  tabled i form asked := by
    refine ⟨(Pool.Indexed.inStep_holding _).1, ?_⟩
    have next := forms_take_succ asked
    have early : form ∈ s.forms (requests.take (i + 1)) := by
      rw [next]
      exact List.mem_append_right _ (List.mem_singleton_self form)
    rw [sound.answered asked, rank_forms_take early, next, Pool.Indexed.intern_holding]

end Shelves

/-- Equal vectors and blocks share a handle, which stands for their normal form ever after. -/
theorem requests_interned (requests : List Request) :
    Interned vectorShelf requests ∧ Interned globalShelf requests ∧
      (∀ blocks form, vectorShelf.form? (.vector blocks) = some form ↔
        StackBlock.NormalForm blocks form) ∧
      ∀ block form, globalShelf.form? (.global block) = some form ↔ block = form := by
  refine ⟨sound_vectorShelf.interned requests, sound_globalShelf.interned requests, ?_, ?_⟩
  · intro blocks form
    constructor
    · intro same
      cases same
      exact StackBlock.normalForm_canonical blocks
    · intro normal
      rw [normal.eq_canonical]
      rfl
  · intro block form
    exact Option.some_inj

end Overrun.Catalog
