/-
  Subject: THE CYCLE CHECK FINDS EXACTLY THE CYCLES THAT ITS CLASSES REACH.

  * `Searched` -- a class that was started from and is not on the path has all its parents among
    such classes, and is on no cycle;
  * `Outcome` -- a search keeps that, or it ends with a cycle that its classes reach;
  * `visit_outcome` -- one visit, from a path whose classes all lead to the class;
  * `checkIntegrity_cyclic_iff` -- **the check reports a cycle if and only if there is one**.
-/
import Pysa.Analysis.ClassHierarchy

namespace Pysa.ClassHierarchy

/-- `parent` is a direct parent of `child`. -/
def Inherits (parents : Parents) (child parent : String) : Prop :=
  parent ∈ immediateParents parents child

/-- A cycle of the parent relation is reachable from `className`. -/
def ReachesCycle (parents : Parents) (className : String) : Prop :=
  ∃ x, Relation.ReflTransGen (Inherits parents) className x ∧
    Relation.TransGen (Inherits parents) x x

theorem ReachesCycle.of_inherits {parents : Parents} {child parent : String}
    (h : Inherits parents child parent) (hcycle : ReachesCycle parents parent) :
    ReachesCycle parents child := by
  obtain ⟨x, hreach, hcycle⟩ := hcycle
  exact ⟨x, .head h hreach, hcycle⟩

structure Searched (parents : Parents) (path : List String) (startedFrom : Finset String) :
    Prop where
  onPath : ∀ x ∈ path, x ∈ startedFrom
  closed : ∀ x ∈ startedFrom, x ∉ path → ∀ y, Inherits parents x y → y ∈ startedFrom ∧ y ∉ path
  acyclic : ∀ x ∈ startedFrom, x ∉ path → ¬ Relation.TransGen (Inherits parents) x x

/-- What a search from `classNames` does. -/
def Outcome (parents : Parents) (path : List String) (startedFrom : Finset String)
    (classNames : List String) (result : Except CheckIntegrityError (Finset String)) : Prop :=
  (∃ after, result = .ok after ∧ startedFrom ⊆ after ∧ Searched parents path after ∧
    ∀ name ∈ classNames, name ∈ after ∧ name ∉ path) ∨
  ∃ c, result = .error (.cyclic c) ∧ ∃ name ∈ classNames, ReachesCycle parents name

variable {parents : Parents} {path : List String} {startedFrom : Finset String}

/-- What was started from is left only to classes of the path. -/
theorem Searched.reach (h : Searched parents path startedFrom) {x y : String}
    (hx : x ∈ startedFrom) (hpath : x ∉ path)
    (hreach : Relation.ReflTransGen (Inherits parents) x y) : y ∈ startedFrom ∧ y ∉ path := by
  induction hreach with
  | refl => exact ⟨hx, hpath⟩
  | tail _ hstep ih => exact h.closed _ ih.1 ih.2 _ hstep

theorem Searched.not_reachesCycle (h : Searched parents path startedFrom) {x : String}
    (hx : x ∈ startedFrom) (hpath : x ∉ path) : ¬ ReachesCycle parents x := by
  intro ⟨y, hreach, hcycle⟩
  obtain ⟨hy, hpath⟩ := h.reach hx hpath hreach
  exact h.acyclic y hy hpath hcycle

/-- A class goes onto the path when it is started from. -/
theorem Searched.push (h : Searched parents path startedFrom) {name : String}
    (hnew : name ∉ startedFrom) :
    Searched parents (name :: path) (insert name startedFrom) where
  onPath x hx := by
    rcases List.mem_cons.mp hx with rfl | hx
    · exact Finset.mem_insert_self _ _
    · exact Finset.mem_insert_of_mem (h.onPath x hx)
  closed x hx hpath y hxy := by
    rw [List.mem_cons, not_or] at hpath
    have hx := (Finset.mem_insert.mp hx).resolve_left hpath.1
    obtain ⟨hy, hypath⟩ := h.closed x hx hpath.2 y hxy
    refine ⟨Finset.mem_insert_of_mem hy, fun hmem => ?_⟩
    rcases List.mem_cons.mp hmem with rfl | hmem
    · exact hnew hy
    · exact hypath hmem
  acyclic x hx hpath := by
    rw [List.mem_cons, not_or] at hpath
    exact h.acyclic x ((Finset.mem_insert.mp hx).resolve_left hpath.1) hpath.2

/-- It leaves the path when its parents were searched: none of them leads back to it. -/
theorem Searched.pop {name : String} (h : Searched parents (name :: path) startedFrom)
    (hparents : ∀ y, Inherits parents name y → y ∈ startedFrom ∧ y ∉ name :: path) :
    Searched parents path startedFrom where
  onPath x hx := h.onPath x (List.mem_cons_of_mem _ hx)
  closed x hx hpath y hxy := by
    by_cases heq : x = name
    · subst heq
      obtain ⟨hy, hypath⟩ := hparents y hxy
      exact ⟨hy, fun hmem => hypath (List.mem_cons_of_mem _ hmem)⟩
    · obtain ⟨hy, hypath⟩ := h.closed x hx (List.not_mem_cons_of_ne_of_not_mem heq hpath) y hxy
      exact ⟨hy, fun hmem => hypath (List.mem_cons_of_mem _ hmem)⟩
  acyclic x hx hpath hcycle := by
    by_cases heq : x = name
    · subst heq
      obtain ⟨y, hxy, hreach⟩ := Relation.TransGen.head'_iff.mp hcycle
      obtain ⟨hy, hypath⟩ := hparents y hxy
      exact (h.reach hy hypath hreach).2 List.mem_cons_self
    · exact h.acyclic x hx (List.not_mem_cons_of_ne_of_not_mem heq hpath) hcycle

/-- The searches from several classes, one after the other. -/
theorem foldlM_outcome
    {search : Finset String → String → Except CheckIntegrityError (Finset String)}
    {classNames : List String}
    (hsearch : ∀ name ∈ classNames, ∀ startedFrom, Searched parents path startedFrom →
      Outcome parents path startedFrom [name] (search startedFrom name))
    (h : Searched parents path startedFrom) :
    Outcome parents path startedFrom classNames (classNames.foldlM search startedFrom) := by
  induction classNames generalizing startedFrom with
  | nil =>
    exact Or.inl ⟨startedFrom, rfl, Finset.Subset.refl _, h, fun _ hx => absurd hx List.not_mem_nil⟩
  | cons name rest ih =>
    rw [List.foldlM_cons]
    rcases hsearch name List.mem_cons_self startedFrom h with
      ⟨next, hnext, hsub, hsearched, hname⟩ | ⟨c, herror, n, hn, hcycle⟩
    · rw [hnext]
      have hname := hname name (List.mem_singleton.mpr rfl)
      rcases ih (fun n hn => hsearch n (List.mem_cons_of_mem _ hn)) hsearched with
        ⟨after, hafter, hsub', hsearched', hrest⟩ | ⟨c, herror, n, hn, hcycle⟩
      · refine Or.inl ⟨after, hafter, hsub.trans hsub', hsearched', fun n hn => ?_⟩
        rcases List.mem_cons.mp hn with rfl | hn
        · exact ⟨hsub' hname.1, hname.2⟩
        · exact hrest n hn
      · exact Or.inr ⟨c, herror, n, List.mem_cons_of_mem _ hn, hcycle⟩
    · rw [herror]
      obtain rfl := List.mem_singleton.mp hn
      exact Or.inr ⟨c, rfl, n, List.mem_cons_self, hcycle⟩

/-- **A visit** of a class that every class of the path leads to. -/
theorem visit_outcome (parents : Parents) (path : List String) (startedFrom : Finset String)
    (name : String) (h : Searched parents path startedFrom)
    (hpath : ∀ x ∈ path, Relation.TransGen (Inherits parents) x name) :
    Outcome parents path startedFrom [name] (visit parents path startedFrom name) := by
  rw [visit_eq]
  by_cases hnew : name ∈ path
  · rw [if_pos hnew]
    exact Or.inr ⟨name, rfl, name, List.mem_singleton.mpr rfl, name, .refl, hpath name hnew⟩
  · rw [if_neg hnew]
    split
    case isTrue hstarted =>
      refine Or.inl ⟨startedFrom, rfl, Finset.Subset.refl _, h, fun n hn => ?_⟩
      obtain rfl := List.mem_singleton.mp hn
      exact ⟨hstarted, hnew⟩
    case isFalse hstarted =>
      have hparents : ∀ parent ∈ immediateParents parents name, ∀ startedFrom,
          Searched parents (name :: path) startedFrom →
          Outcome parents (name :: path) startedFrom [parent]
            (visit parents (name :: path) startedFrom parent) := by
        intro parent hparent startedFrom hsearched
        refine visit_outcome parents (name :: path) startedFrom parent hsearched fun x hx => ?_
        rcases List.mem_cons.mp hx with rfl | hx
        · exact .single hparent
        · exact (hpath x hx).tail hparent
      rcases foldlM_outcome hparents (h.push hstarted) with
        ⟨after, hafter, hsub, hsearched, hrest⟩ | ⟨c, herror, parent, hparent, hcycle⟩
      · rw [hafter]
        refine Or.inl ⟨after, rfl, (Finset.subset_insert _ _).trans hsub, hsearched.pop hrest,
          fun n hn => ?_⟩
        obtain rfl := List.mem_singleton.mp hn
        exact ⟨hsub (Finset.mem_insert_self _ _), hnew⟩
      · rw [herror]
        exact Or.inr ⟨c, rfl, name, List.mem_singleton.mpr rfl, hcycle.of_inherits hparent⟩
termination_by (parents.names \ path.toFinset).card
decreasing_by
  rw [List.toFinset_cons]
  exact card_sdiff_insert_lt (fun hmem => hnew (List.mem_toFinset.mp hmem)) hparent

theorem findCycle_outcome (start : String) (h : Searched parents [] startedFrom) :
    Outcome parents [] startedFrom [start] (findCycle parents startedFrom start) := by
  unfold findCycle
  split
  case isTrue hstarted =>
    refine Or.inl ⟨startedFrom, rfl, Finset.Subset.refl _, h, fun n hn => ?_⟩
    obtain rfl := List.mem_singleton.mp hn
    exact ⟨hstarted, List.not_mem_nil⟩
  case isFalse =>
    exact visit_outcome parents [] startedFrom start h fun _ hx => absurd hx List.not_mem_nil

/-- The search from all classes: nothing is left on the path. -/
theorem checkForCycles_spec (handler : Handler) (classNames : List String) :
    checkForCycles handler classNames = .ok () ∧
        (∀ name ∈ classNames, ¬ ReachesCycle handler.parentsOf name) ∨
      (∃ c, checkForCycles handler classNames = .error (.cyclic c)) ∧
        ∃ name ∈ classNames, ReachesCycle handler.parentsOf name := by
  have hempty : Searched handler.parentsOf [] ∅ :=
    ⟨fun _ hx => absurd hx List.not_mem_nil, fun x hx => absurd hx (Finset.notMem_empty x),
      fun x hx => absurd hx (Finset.notMem_empty x)⟩
  unfold checkForCycles
  rcases foldlM_outcome (fun name (_ : name ∈ classNames) _ => findCycle_outcome name) hempty with
    ⟨after, hafter, -, hsearched, hnames⟩ | ⟨c, herror, hcycle⟩
  · rw [hafter]
    refine Or.inl ⟨rfl, fun name hname => ?_⟩
    exact hsearched.not_reachesCycle (hnames name hname).1 (hnames name hname).2
  · rw [herror]
    exact Or.inr ⟨⟨c, rfl⟩, hcycle⟩

/-- **On classes that all have edges the check reports a cycle if and only if one of them reaches
    one, and it succeeds otherwise.** -/
theorem checkIntegrity_cyclic_iff (handler : Handler) (classNames : List String)
    (hedges : ∀ name ∈ classNames, (handler.edges name).isSome) :
    ((∃ c, checkIntegrity handler classNames = .error (.cyclic c)) ↔
      ∃ name ∈ classNames, ReachesCycle handler.parentsOf name) ∧
    ((¬ ∃ name ∈ classNames, ReachesCycle handler.parentsOf name) →
      checkIntegrity handler classNames = .ok ()) := by
  have hcomplete : classNames.find? (fun name => (handler.edges name).isNone) = none := by
    rw [List.find?_eq_none]
    intro name hname hnone
    rw [Option.isNone_iff_eq_none] at hnone
    have hsome := hedges name hname
    rw [hnone] at hsome
    cases hsome
  have heq : checkIntegrity handler classNames = checkForCycles handler classNames := by
    unfold checkIntegrity
    rw [hcomplete]
  rw [heq]
  rcases checkForCycles_spec handler classNames with ⟨hok, hfree⟩ | ⟨herror, hcycle⟩
  · refine ⟨⟨fun ⟨c, herror⟩ => ?_, fun ⟨name, hname, hcycle⟩ => ?_⟩, fun _ => hok⟩
    · rw [hok] at herror
      cases herror
    · exact absurd hcycle (hfree name hname)
  · exact ⟨⟨fun _ => hcycle, fun _ => herror⟩, fun hfree => absurd hcycle hfree⟩

/-- Two classes share a base; a third is its own grandparent. -/
theorem checkIntegrity_cyclic_iff_shared :
    let handler : Handler := ⟨fun name =>
        if name = "a" then some ⟨[⟨"base"⟩]⟩
        else if name = "b" then some ⟨[⟨"base"⟩, ⟨"c"⟩]⟩
        else if name = "c" then some ⟨[⟨"d"⟩]⟩
        else if name = "d" then some ⟨[⟨"base"⟩, ⟨"c"⟩]⟩
        else if name = "base" then some ⟨[]⟩ else none,
      {"a", "b", "c", "d", "base"}, by
        intro name
        simp only [Finset.mem_insert, Finset.mem_singleton]
        split_ifs <;> simp_all⟩
    (∀ name ∈ ["a", "b"], (handler.edges name).isSome) ∧
      ((∃ c, checkIntegrity handler ["a", "b"] = .error (.cyclic c)) ↔
        ∃ name ∈ ["a", "b"], ReachesCycle handler.parentsOf name) ∧
      ((¬ ∃ name ∈ ["a", "b"], ReachesCycle handler.parentsOf name) →
        checkIntegrity handler ["a", "b"] = .ok ()) := by
  intro handler
  have hedges : ∀ name ∈ ["a", "b"], (handler.edges name).isSome := by decide
  exact ⟨hedges, checkIntegrity_cyclic_iff handler ["a", "b"] hedges⟩

end Pysa.ClassHierarchy
