import EverDb.Array.Refine
import EverDb.Block.Frame
import EverDb.Block.Mock
import Mathlib.Data.Fintype.BigOperators

/-!
# Arrays beside each other

Arrays of one client that lie in different blocks do not see each other: whatever the
order of the calls, each array answers as a list does to the calls on it alone.
-/

namespace EverDb

open Foundation Ownership

/-- Where an array lies, how long its elements are and how many data blocks it may take. -/
structure ArrayPlan where
  root : Nat
  size : Nat
  limit : Nat
  positive : 0 < size
  small : size ≤ 255
  limited : limit ≤ 521728

variable {ρ ι : Type} {api : BlockApi (Db ρ)} {contract other : BlockContract api}
  {own later full : Ownership}
  {db after : Db ρ} {root size limit : Nat} {elems new : List (List UInt8)} {plan : ι → ArrayPlan}
  {bytes : Nat → Image} {i : ι}

/-! ## The calls -/

/-- `array_init` on one array after another. -/
def initArrays (plan : ι → ArrayPlan) : List ι → Code (Db ρ) Unit
  | [] => pure ()
  | i :: rest => arrayInit (plan i).root (plan i).size >>= fun _ => initArrays plan rest

/-- Calls on several arrays in any order. A failed call reports its code. -/
def runArrayCalls (api : BlockApi (Db ρ)) (plan : ι → ArrayPlan) : List (ι × ArrayOp) →
    Code (Db ρ) (List ArrayResult)
  | [] => pure []
  | (i, op) :: calls =>
      (runArrayOp api (plan i).root op).onError (fun code => pure (.failed code)) >>= fun answer =>
        runArrayCalls api plan calls >>= fun answers => pure (answer :: answers)

section Views

variable [DecidableEq ι]

/-- The calls on one of the arrays. -/
def callsOf (i : ι) (calls : List (ι × ArrayOp)) : List ArrayOp :=
  calls.filterMap fun call => if call.1 = i then some call.2 else none

/-- The answers to the calls on one of the arrays. -/
def answersOf (i : ι) (calls : List (ι × ArrayOp)) (answers : List ArrayResult) :
    List ArrayResult :=
  (calls.zip answers).filterMap fun call => if call.1.1 = i then some call.2 else none

/-- A call on the array is one of its own. -/
theorem callsOf_self (op : ArrayOp) (calls : List (ι × ArrayOp)) :
    callsOf i ((i, op) :: calls) = op :: callsOf i calls := by
  simp [callsOf]

/-- A call on another array is not. -/
theorem callsOf_of_ne {j : ι} (apart : j ≠ i) (op : ArrayOp) (calls : List (ι × ArrayOp)) :
    callsOf i ((j, op) :: calls) = callsOf i calls := by
  simp [callsOf, apart]

/-- The answer to a call on the array is one of its own. -/
theorem answersOf_self (op : ArrayOp) (answer : ArrayResult) (calls : List (ι × ArrayOp))
    (answers : List ArrayResult) :
    answersOf i ((i, op) :: calls) (answer :: answers) = answer :: answersOf i calls answers := by
  simp [answersOf]

/-- The answer to a call on another array is not. -/
theorem answersOf_of_ne {j : ι} (apart : j ≠ i) (op : ArrayOp) (answer : ArrayResult)
    (calls : List (ι × ArrayOp))
    (answers : List ArrayResult) :
    answersOf i ((j, op) :: calls) (answer :: answers) = answersOf i calls answers := by
  simp [answersOf, apart]

end Views

/-! ## Arrays in shares -/

/-- An array is one for every owner of its blocks as long as they have the same bytes. -/
theorem ArrayRep.transport (array : ArrayRep contract limit own db root size elems)
    (valid : other.Valid own.settled after)
    (same : ∀ block, own.kept block → after.data block = db.data block) :
    ArrayRep other limit own.settled after root size elems := by
  cases array with
  | small array room =>
      have image := same root ((contract.wf array.valid).writable_kept array.writable)
      refine .small ⟨valid, array.writable, ?_, ⟨?_, ?_⟩, array.fits, fun i element found => ?_,
        fun offset low high => ?_⟩ room
      · exact image ▸ array.count
      · exact image ▸ array.header.itemSize
      · exact image ▸ array.header.length
      · exact image ▸ array.elements i element found
      · exact image ▸ array.trailing offset low high
  | paged blocks indexes array within room =>
      have held := array.held
      have wf := contract.wf held.valid
      have image := same root (wf.writable_kept held.writable)
      have inside :
          ∀ block ∈ blocks ++ indexes, after.data block = db.data block := fun block member =>
        same block (wf.live_kept (held.live block member))
      refine .paged blocks indexes
        ⟨⟨valid, ?_, held.writable, held.live, held.distinct⟩, array.nonempty,
        array.writable, ⟨?_, ?_⟩, array.fits, fun i element block found there => ?_⟩ within room
      · exact held.table.congr image fun index member => inside index (by simp [member])
      · exact image ▸ array.header.itemSize
      · exact image ▸ array.header.length
      · rw [inside block (by simp [List.mem_of_getElem? there])]
        exact array.elements i element block found there

variable [Fintype ι]

/-! ## Dealing out -/

/-- A share for each root, with the room of its array, and one for the rest. -/
def deal (plan : ι → ArrayPlan) (own : Ownership) : Option ι → Ownership
  | none =>
      { kept := fun block => own.kept block ∧ ∀ i, block ≠ (plan i).root
        usable := fun block => own.live block ∧ ∀ i, block ≠ (plan i).root
        live := fun block => own.live block ∧ ∀ i, block ≠ (plan i).root
        writable := fun block => own.writable block ∧ ∀ i, block ≠ (plan i).root
        room := own.room - ∑ i, 3 * (plan i).limit }
  | some i =>
      let mine : Nat → Prop := fun block => block = (plan i).root
      ⟨mine, mine, mine, mine, 3 * (plan i).limit⟩

/-- What a client owns can be dealt out to the arrays. -/
theorem deal_dealt (valid : contract.Valid own db) (writable : ∀ i, own.writable (plan i).root)
    (distinct : Function.Injective fun i => (plan i).root)
    (room : ∑ i, 3 * (plan i).limit ≤ own.room) :
    Dealt contract (deal plan own) own db := by
  have wf := contract.wf valid
  -- a block is a root or in the rest
  have parts : ∀ (holds : Nat → Prop) (block : Nat), (∀ i, holds (plan i).root) →
      (holds block ↔ (holds block ∧ ∀ i, block ≠ (plan i).root) ∨ ∃ i, block = (plan i).root) := by
    intro holds block roots
    constructor
    · intro there
      by_cases root : ∃ i, block = (plan i).root
      · exact .inr root
      · exact .inl ⟨there, fun i same => root ⟨i, same⟩⟩
    · rintro (⟨there, _⟩ | ⟨i, rfl⟩)
      · exact there
      · exact roots i
  refine ⟨valid, fun share => ?_, fun left right block => ?_, fun block => ?_, fun block => ?_,
    fun block => ?_, ?_⟩
  · cases share with
    | none =>
        exact ⟨fun _ both => ⟨wf.writable_live _ both.1, both.2⟩, fun _ live => live,
          fun _ live => ⟨wf.live_kept live.1, live.2⟩, fun _ kept =>
            wf.positive _ kept.1, fun _ kept =>
            wf.bounded _ kept.1⟩
    | some i =>
        have kept := wf.writable_kept (writable i)
        exact ⟨fun _ => id, fun _ => id, fun _ => id, fun _ same => same ▸ wf.positive _ kept,
          fun _ same => same ▸ wf.bounded _ kept⟩
  · cases left with
    | none =>
        cases right with
        | none => exact fun _ _ => rfl
        | some j => exact fun kept same => absurd same (kept.2 j)
    | some i =>
        cases right with
        | none => exact fun same kept => absurd same (kept.2 i)
        | some j => exact fun first second => congrArg some (distinct (first.symm.trans second))
  · rw [Option.exists]
    exact parts own.kept block fun i => wf.writable_kept (writable i)
  · rw [Option.exists]
    exact parts own.live block fun i => wf.writable_live _ (writable i)
  · rw [Option.exists]
    exact parts own.writable block writable
  · rw [Fintype.sum_option]
    exact Nat.le_of_eq (Nat.sub_add_cancel room)

/-! ## Running them -/

variable [DecidableEq ι] {shares : Option ι → Ownership} {made : ι → Prop}
  {lists : ι → List (List UInt8)}

/-- Arrays in shares of their own. Those that are not made yet have their roots and their
room, and what nobody's array needs keeps its bytes. -/
structure Arrays (contract : BlockContract api) (plan : ι → ArrayPlan) (rest : Ownership)
    (bytes : Nat → Image)
    (shares : Option ι → Ownership) (full : Ownership) (db : Db ρ) (made : ι → Prop)
    (lists : ι → List (List UInt8)) : Prop where
  dealt : Dealt contract shares full db
  spared : shares none = rest
  same : ∀ block, rest.kept block → db.data block = bytes block
  reps : ∀ i, made i → ArrayRep (contract.beside (others shares (some i)) db.data) (plan i).limit
    (shares (some i)).settled db (plan i).root (plan i).size (lists i)
  waiting : ∀ i, ¬made i → (shares (some i)).writable (plan i).root ∧
    3 * (plan i).limit ≤ (shares (some i)).room

namespace Arrays

variable {rest : Ownership}

/-- A call on one array leaves the others as they were. -/
theorem replace (arrays : Arrays contract plan rest bytes shares full db made lists) (i : ι)
    (array : ArrayRep (contract.beside (others shares (some i)) db.data) (plan i).limit later
      after (plan i).root
      (plan i).size new) :
    ∃ shares full, Arrays contract plan rest bytes shares full after (fun j => j = i ∨ made j)
      (Function.update lists i new) := by
  obtain ⟨⟨full, dealt⟩, same⟩ := arrays.dealt.call array.valid.1
  have apart : ∀ {j : ι}, j ≠ i → some j ≠ some i :=
    fun different equal => different (Option.some.inj equal)
  refine ⟨_, full, dealt, ?_, fun block kept => ?_, fun j known => ?_, fun j unknown => ?_⟩
  · rw [Function.update_of_ne (Option.some_ne_none i).symm]
    exact arrays.spared
  · rw [same none (Option.some_ne_none i).symm block (arrays.spared ▸ kept)]
    exact arrays.same block kept
  · have valid := dealt.share (some j)
    by_cases here : j = i
    · subst here
      rw [Function.update_self] at valid ⊢
      rw [Function.update_self]
      exact array.transport valid fun _ _ => rfl
    · rw [Function.update_of_ne (apart here)] at valid ⊢
      rw [Function.update_of_ne here]
      exact (arrays.reps j (known.resolve_left here)).transport valid fun block kept =>
        same (some j) (apart here) block kept
  · rw [not_or] at unknown
    rw [Function.update_of_ne (apart unknown.1)]
    exact arrays.waiting j unknown.2

/-- `array_init` on a root that waits. -/
theorem init (arrays : Arrays contract plan rest bytes shares full db made fun _ => [])
    (waits : ¬made i) :
    ∃ after shares full, arrayInit (plan i).root (plan i).size db = .ok () after ∧
      Arrays contract plan rest bytes shares full after (fun j => j = i ∨ made j) fun _ => [] := by
  obtain ⟨writable, room⟩ := arrays.waiting i waits
  obtain ⟨after, ran, array⟩ :=
    arrayInit_spec (arrays.dealt.share (some i)) writable (plan i).small room
  obtain ⟨shares, full, arrays⟩ := arrays.replace i array
  rw [Function.update_eq_self] at arrays
  exact ⟨after, shares, full, ran, arrays⟩

/-- Making the arrays in any order makes them all. -/
theorem initAll (arrays : Arrays contract plan rest bytes shares full db made fun _ => [])
    (order : List ι) (distinct : order.Nodup) (wait : ∀ i ∈ order, ¬made i) :
    ∃ after shares full, initArrays plan order db = .ok () after ∧
      Arrays contract plan rest bytes shares full after (fun j => j ∈ order ∨
        made j) fun _ => [] := by
  induction order generalizing shares full db made with
  | nil =>
      refine ⟨db, shares, full, rfl, ?_⟩
      simpa using arrays
  | cons i order ih =>
      obtain ⟨outside, distinct⟩ := List.nodup_cons.mp distinct
      obtain ⟨middle, shares, full, ran, arrays⟩ := arrays.init (wait i (by simp))
      obtain ⟨after, shares, full, rest, arrays⟩ := ih arrays distinct fun j member => by
        rintro (rfl | known)
        · exact outside member
        · exact wait j (by simp [member]) known
      refine ⟨after, shares, full, (Code.bind_ok ran).trans rest, ?_⟩
      have order : (fun j => j ∈ i :: order ∨ made j) = fun j => j ∈ order ∨ j = i ∨ made j := by
        funext j
        simp only [List.mem_cons, eq_iff_iff]
        tauto
      rw [order]
      exact arrays

/-- One call. -/
theorem call (arrays : Arrays contract plan rest bytes shares full db (fun _ => True) lists)
    (i : ι) (op : ArrayOp) (fits : opBlocks (plan i).size op (lists i) ≤ (plan i).limit) :
    ∃ after shares full, (runArrayOp api (plan i).root op).onError (fun code =>
      pure (.failed code)) db =
        .ok (listOp (plan i).size op (lists i)).1 after ∧
      Arrays contract plan rest bytes shares full after (fun _ => True)
        (Function.update lists i (listOp (plan i).size op (lists i)).2) := by
  obtain ⟨later, after, ran, array, _⟩ :=
    runArrayOp_spec (arrays.reps i trivial) (plan i).positive (plan i).small
      (plan i).limited op fits
  obtain ⟨shares, full, arrays⟩ := arrays.replace i array
  have all : (fun j => j = i ∨ True) = fun _ : ι => True := by simp
  rw [all] at arrays
  exact ⟨after, shares, full, ran, arrays⟩

/-- Any run of calls. -/
theorem calls (arrays : Arrays contract plan rest bytes shares full db (fun _ => True) lists)
    (calls : List (ι × ArrayOp))
    (fits : ∀ i, OpsFit (plan i).size (plan i).limit (callsOf i calls) (lists i)) :
    ∃ answers after shares full, runArrayCalls api plan calls db = .ok answers after ∧
    answers.length = calls.length ∧
      (∀ i, answersOf i calls answers = (listOps (plan i).size (callsOf i calls) (lists i)).1) ∧
      Arrays contract plan rest bytes shares full after (fun _ => True)
        fun i => (listOps (plan i).size (callsOf i calls) (lists i)).2 := by
  induction calls generalizing shares full db lists with
  | nil => exact ⟨[], db, shares, full, rfl, rfl, fun _ => rfl, arrays⟩
  | cons first calls ih =>
      obtain ⟨j, op⟩ := first
      have here := fits j
      rw [callsOf_self] at here
      obtain ⟨middle, _, _, ran, arrays⟩ := arrays.call j op here.1
      obtain ⟨answers, after, shares, full, rest, counted, answered, arrays⟩ :=
        ih arrays fun i => by
        by_cases same : j = i
        · subst same
          rw [Function.update_self]
          exact here.2
        · rw [Function.update_of_ne (Ne.symm same), ← callsOf_of_ne same op calls]
          exact fits i
      refine ⟨(listOp (plan j).size op (lists j)).1 :: answers, after, shares, full, ?_,
        congrArg Nat.succ counted, fun i => ?_, ?_⟩
      · unfold runArrayCalls
        rw [Code.bind_ok ran, Code.bind_ok rest]
        rfl
      · have tail := answered i
        by_cases same : j = i
        · subst same
          rw [Function.update_self] at tail
          rw [answersOf_self, callsOf_self, tail]
          rfl
        · rw [Function.update_of_ne (Ne.symm same)] at tail
          rw [answersOf_of_ne same, callsOf_of_ne same, tail]
      · convert arrays using 2 with i
        by_cases same : j = i
        · subst same
          rw [callsOf_self, Function.update_self]
          rfl
        · rw [callsOf_of_ne same, Function.update_of_ne (Ne.symm same)]

end Arrays

/-- Arrays in different blocks are independent: whatever the order of the calls on them,
each answers as a list does to its own calls, every call after them too, and the other
blocks of the client are as they were. The allocator has room for all of them at their
limits. -/
theorem arrays_independent (valid : contract.Valid own db)
    (writable : ∀ i, own.writable (plan i).root)
    (distinct : Function.Injective fun i => (plan i).root)
    (room : ∑ i, 3 * (plan i).limit ≤ own.room)
    (order : List ι) (once : order.Nodup) (all : ∀ i, i ∈ order) (calls : List (ι × ArrayOp))
    (fits : ∀ i, OpsFit (plan i).size (plan i).limit (callsOf i calls) []) :
    ∃ answers after, (initArrays plan order >>= fun _ => runArrayCalls api plan calls) db =
      .ok answers after ∧
      answers.length = calls.length ∧
      (∀ i, answersOf i calls answers = (listOps (plan i).size (callsOf i calls) []).1) ∧
      (∀ i op, opBlocks (plan i).size op
        (listOps (plan i).size (callsOf i calls) []).2 ≤ (plan i).limit →
        ∃ last, (runArrayOp api (plan i).root op).onError (fun code => pure (.failed code)) after =
          .ok (listOp (plan i).size op (listOps (plan i).size (callsOf i calls) []).2).1 last) ∧
      ∀ block, own.kept block → (∀ i, block ≠ (plan i).root) →
      after.data block = db.data block := by
  have start : Arrays contract plan (deal plan own none) db.data (deal plan own) own db (fun _ =>
      False) fun _ => [] :=
    ⟨deal_dealt valid writable distinct room, rfl, fun _ _ => rfl, fun _ known => known.elim,
      fun i _ => ⟨rfl, Nat.le_refl _⟩⟩
  obtain ⟨middle, _, _, began, arrays⟩ := start.initAll order once fun _ _ => id
  have known : (fun i => i ∈ order ∨ False) = fun _ : ι => True := by simp [all]
  rw [known] at arrays
  obtain ⟨answers, after, _, _, ran, counted, answered, arrays⟩ := arrays.calls calls fits
  refine ⟨answers, after, (Code.bind_ok began).trans ran, counted, answered, fun i op needs => ?_,
    fun block kept apart => ?_⟩
  · obtain ⟨last, _, _, ran, _⟩ := arrays.call i op needs
    exact ⟨last, ran⟩
  · exact arrays.same block ⟨kept, apart⟩

/-- Two arrays, one of words and one of bytes. -/
def twoPlans : Bool → ArrayPlan
  | false => ⟨1, 4, 1, by decide, by decide, by decide⟩
  | true => ⟨2, 1, 1, by decide, by decide, by decide⟩

/-- Two arrays used in turn. -/
theorem arrays_independent_two : ∃ answers after,
    (initArrays twoPlans [false, true] >>= fun _ => runArrayCalls mockApi twoPlans
      [(false, .push (Image.ofWord 7)), (true, .push (Image.ofWord 9)), (false, .pop),
        (true, .get 0)])
      ⟨fun _ => Image.zero, [3, 4, 5, 6, 7, 8]⟩ = .ok answers after ∧ answers.length = 4 := by
  have valid :
      mockContract.Valid (mockOwnership [1, 2] 6) ⟨fun _ => Image.zero, [3, 4, 5, 6, 7, 8]⟩ :=
    mockValid_of_disjoint [1, 2] [3, 4, 5, 6, 7, 8] _ (by decide) (by decide)
  have writable : ∀ i, (mockOwnership [1, 2] 6).writable (twoPlans i).root := by
    intro i
    cases i <;> simp [mockOwnership, twoPlans]
  have distinct : Function.Injective fun i => (twoPlans i).root := by
    intro left right same
    cases left <;> cases right <;> first | rfl | cases same
  obtain ⟨answers, after, ran, counted, _⟩ := arrays_independent valid writable distinct (by decide)
    [false, true] (by decide) (by decide)
    [(false, .push (Image.ofWord 7)), (true, .push (Image.ofWord 9)), (false, .pop),
      (true, .get 0)] (by
      intro i
      cases i <;> exact ⟨by decide, by decide, trivial⟩)
  exact ⟨answers, after, ran, counted⟩

end EverDb
