/-
  Subject: DEPTH-FIRST SEARCH OF A FINITE GRAPH. Nothing here names the analyser.

  * `visit`, `search` -- the search from one node and from several, over the visited nodes and the
    list of finished ones, the last finished first;
  * `Search.Ok` -- the invariant: a successor of a finished node is visited, and it was finished
    earlier unless the two nodes are on a cycle;
  * `visit_spec` -- a visit succeeds when the fuel exceeds the number of unvisited nodes, keeps the
    invariant and leaves the nodes on the stack as they are. What carries it is that every node on
    the stack reaches the node that is visited;
  * `search_spec` -- **the finished nodes are the reachable ones, each once, and a successor that
    does not lead back comes later in the list.**
-/
import Mathlib.Data.Finset.Card
import Mathlib.Data.Finset.SDiff
import Mathlib.Data.List.Nodup
import Mathlib.Logic.Relation

namespace Pysa

universe u

namespace DepthFirst

/-- The state of a search. -/
structure Search (α : Type u) where
  visited : Finset α
  /-- The finished nodes, the last finished first. -/
  finished : List α

variable {α : Type u} (successors : α → List α)

/-- A path of any length. -/
def Reach : α → α → Prop := Relation.ReflTransGen fun u v => v ∈ successors u

namespace Search

/-- `x` is on the stack. -/
def Open (s : Search α) (x : α) : Prop := x ∈ s.visited ∧ x ∉ s.finished

structure Ok (s : Search α) : Prop where
  nodup : s.finished.Nodup
  visited : ∀ x ∈ s.finished, x ∈ s.visited
  successor : ∀ u ∈ s.finished, ∀ v ∈ successors u, v ∈ s.visited ∧
    ([u, v].Sublist s.finished ∨ Reach successors v u)

/-- What a search from `starts` does to the state. -/
structure Extends (s : Search α) (starts : List α) (s' : Search α) : Prop where
  ok : s'.Ok successors
  mono : s.visited ⊆ s'.visited
  started : ∀ x ∈ starts, x ∈ s'.visited
  opened : ∀ x, s'.Open x ↔ s.Open x
  reach : ∀ x ∈ s'.finished, x ∈ s.finished ∨ ∃ start ∈ starts, Reach successors start x

variable {successors} {s s' s'' : Search α} {node : α} {starts : List α}

theorem Extends.refl (h : s.Ok successors) : s.Extends successors [] s where
  ok := h
  mono := Finset.Subset.refl _
  started := fun _ hx => absurd hx List.not_mem_nil
  opened := fun _ => Iff.rfl
  reach := fun _ hx => Or.inl hx

theorem Extends.cons (h : s.Extends successors [node] s') (h' : s'.Extends successors starts s'') :
    s.Extends successors (node :: starts) s'' where
  ok := h'.ok
  mono := h.mono.trans h'.mono
  started := by
    intro x hx
    rcases List.mem_cons.mp hx with rfl | hx
    · exact h'.mono (h.started x List.mem_cons_self)
    · exact h'.started x hx
  opened := fun x => (h'.opened x).trans (h.opened x)
  reach := by
    intro x hx
    rcases h'.reach x hx with hx | ⟨start, hstart, hreach⟩
    · rcases h.reach x hx with hx | ⟨start, hstart, hreach⟩
      · exact Or.inl hx
      · exact Or.inr ⟨start, List.mem_cons.mpr (Or.inl (List.mem_singleton.mp hstart)), hreach⟩
    · exact Or.inr ⟨start, List.mem_cons_of_mem _ hstart, hreach⟩

end Search

open Search

variable [DecidableEq α] (successors : α → List α)

/-- The search from one node; `none` when the fuel does not suffice. -/
def visit : ℕ → Search α → α → Option (Search α)
  | 0, _, _ => none
  | fuel + 1, s, node =>
    if node ∈ s.visited then some s
    else do
      let s ← (successors node).foldlM (visit fuel) { s with visited := insert node s.visited }
      return { s with finished := node :: s.finished }

def search (fuel : ℕ) (starts : List α) : Option (Search α) :=
  starts.foldlM (visit successors fuel) ⟨∅, []⟩

variable {successors} {U : Finset α}

/-- The searches from several nodes, one after the other. -/
theorem foldlM_visit {fuel : ℕ} {starts : List α}
    (hvisit : ∀ (s : Search α) (node : α), s.Ok successors → node ∈ U →
      (∀ x, s.Open x → Reach successors x node) → (U \ s.visited).card < fuel →
      ∃ s', visit successors fuel s node = some s' ∧ s.Extends successors [node] s')
    (s : Search α) (hs : s.Ok successors) (hstarts : ∀ x ∈ starts, x ∈ U)
    (hopen : ∀ x, s.Open x → ∀ start ∈ starts, Reach successors x start)
    (hfuel : (U \ s.visited).card < fuel) :
    ∃ s', starts.foldlM (visit successors fuel) s = some s' ∧ s.Extends successors starts s' := by
  induction starts generalizing s with
  | nil => exact ⟨s, rfl, .refl hs⟩
  | cons node rest ih =>
    obtain ⟨s', hs', hextends⟩ := hvisit s node hs (hstarts node List.mem_cons_self)
      (fun x hx => hopen x hx node List.mem_cons_self) hfuel
    have hcard : (U \ s'.visited).card ≤ (U \ s.visited).card :=
      Finset.card_le_card (Finset.sdiff_subset_sdiff (Finset.Subset.refl _) hextends.mono)
    obtain ⟨s'', hs'', hextends'⟩ := ih s' hextends.ok
      (fun x hx => hstarts x (List.mem_cons_of_mem _ hx))
      (fun x hx start hstart => hopen x ((hextends.opened x).mp hx) start
        (List.mem_cons_of_mem _ hstart))
      (hcard.trans_lt hfuel)
    refine ⟨s'', ?_, hextends.cons hextends'⟩
    rw [List.foldlM_cons, hs']
    exact hs''

/-- **A visit** of a node that every node on the stack reaches. -/
theorem visit_spec (hclosed : ∀ u, ∀ v ∈ successors u, v ∈ U) (fuel : ℕ) (s : Search α)
    (node : α) (hs : s.Ok successors) (hnode : node ∈ U)
    (hopen : ∀ x, s.Open x → Reach successors x node)
    (hfuel : (U \ s.visited).card < fuel) :
    ∃ s', visit successors fuel s node = some s' ∧ s.Extends successors [node] s' := by
  induction fuel generalizing s node with
  | zero => omega
  | succ fuel ih =>
    rw [visit]
    by_cases hvisited : node ∈ s.visited
    · rw [if_pos hvisited]
      refine ⟨s, rfl, hs, Finset.Subset.refl _, fun x hx => ?_, fun _ => Iff.rfl, fun _ => Or.inl⟩
      rw [List.mem_singleton.mp hx]
      exact hvisited
    · rw [if_neg hvisited]
      have hfresh : node ∉ s.finished := fun h => hvisited (hs.visited node h)
      -- the node is put on the stack, and every node on the stack reaches its successors
      let s₁ : Search α := { s with visited := insert node s.visited }
      have hs₁ : s₁.Ok successors :=
        ⟨hs.nodup, fun x hx => Finset.mem_insert_of_mem (hs.visited x hx), fun u hu v hv =>
          ⟨Finset.mem_insert_of_mem (hs.successor u hu v hv).1, (hs.successor u hu v hv).2⟩⟩
      have hopen₁ (x : α) : s₁.Open x ↔ x = node ∨ s.Open x := by
        unfold Open
        rw [Finset.mem_insert]
        constructor
        · rintro ⟨rfl | hx, hfinished⟩
          · exact Or.inl rfl
          · exact Or.inr ⟨hx, hfinished⟩
        · rintro (rfl | ⟨hx, hfinished⟩)
          · exact ⟨Or.inl rfl, hfresh⟩
          · exact ⟨Or.inr hx, hfinished⟩
      have hreach (x : α) (hx : s₁.Open x) : Reach successors x node := by
        rcases (hopen₁ x).mp hx with rfl | hx
        · exact .refl
        · exact hopen x hx
      have hcard : (U \ s₁.visited).card < fuel := by
        have hlt : (U \ s₁.visited).card < (U \ s.visited).card := by
          refine Finset.card_lt_card ⟨Finset.sdiff_subset_sdiff (Finset.Subset.refl _)
            (Finset.subset_insert _ _), fun hsub => ?_⟩
          have hmem := hsub (Finset.mem_sdiff.mpr ⟨hnode, hvisited⟩)
          exact (Finset.mem_sdiff.mp hmem).2 (Finset.mem_insert_self _ _)
        omega
      obtain ⟨s₂, hs₂, hextends⟩ := foldlM_visit (ih) s₁ hs₁ (hclosed node)
        (fun x hx v hv => (hreach x hx).tail hv) hcard
      refine ⟨{ s₂ with finished := node :: s₂.finished }, ?_, ?_⟩
      · rw [hs₂]
        rfl
      · have hopened : s₂.Open node := (hextends.opened node).mpr ((hopen₁ node).mpr (Or.inl rfl))
        refine ⟨⟨List.nodup_cons.mpr ⟨hopened.2, hextends.ok.nodup⟩, ?_, ?_⟩, ?_, ?_, ?_, ?_⟩
        · intro x hx
          rcases List.mem_cons.mp hx with rfl | hx
          · exact hopened.1
          · exact hextends.ok.visited x hx
        · intro u hu v hv
          rcases List.mem_cons.mp hu with rfl | hu
          · have hvisited₂ := hextends.started v hv
            refine ⟨hvisited₂, ?_⟩
            by_cases hfinished : v ∈ s₂.finished
            · exact Or.inl ((List.singleton_sublist.mpr hfinished).cons_cons u)
            · -- a successor that is not finished is on the stack
              exact Or.inr (hreach v ((hextends.opened v).mp ⟨hvisited₂, hfinished⟩))
          · obtain ⟨hvisited₂, horder⟩ := hextends.ok.successor u hu v hv
            exact ⟨hvisited₂, horder.imp (fun h => h.cons node) id⟩
        · exact (Finset.subset_insert _ _).trans hextends.mono
        · intro x hx
          rw [List.mem_singleton.mp hx]
          exact hopened.1
        · intro x
          have hx : s₂.Open x ↔ x = node ∨ s.Open x := (hextends.opened x).trans (hopen₁ x)
          unfold Open at hx ⊢
          rw [List.mem_cons, not_or]
          constructor
          · rintro ⟨hx₂, hne, hfinished⟩
            exact (hx.mp ⟨hx₂, hfinished⟩).resolve_left hne
          · intro hs
            obtain ⟨hx₂, hfinished⟩ := hx.mpr (Or.inr hs)
            exact ⟨hx₂, fun heq => hvisited (heq ▸ hs.1), hfinished⟩
        · intro x hx
          rcases List.mem_cons.mp hx with rfl | hx
          · exact Or.inr ⟨x, List.mem_singleton.mpr rfl, .refl⟩
          · rcases hextends.reach x hx with hx | ⟨start, hstart, hreach⟩
            · exact Or.inl hx
            · exact Or.inr ⟨node, List.mem_singleton.mpr rfl, .head hstart hreach⟩

/-- **The whole search.** -/
theorem search_spec (hclosed : ∀ u, ∀ v ∈ successors u, v ∈ U) {starts : List α}
    (hstarts : ∀ x ∈ starts, x ∈ U) {fuel : ℕ} (hfuel : U.card < fuel) :
    ∃ s, search successors fuel starts = some s ∧ s.finished.Nodup ∧
      (∀ x, x ∈ s.finished ↔ ∃ start ∈ starts, Reach successors start x) ∧
      ∀ u ∈ s.finished, ∀ v ∈ successors u, ¬ Reach successors v u →
        [u, v].Sublist s.finished := by
  have hempty : (⟨∅, []⟩ : Search α).Ok successors :=
    ⟨List.nodup_nil, fun _ h => absurd h List.not_mem_nil, fun _ h => absurd h List.not_mem_nil⟩
  have hclosed₀ (x : α) : ¬ (⟨∅, []⟩ : Search α).Open x := fun h => Finset.notMem_empty x h.1
  obtain ⟨s, hs, hextends⟩ := foldlM_visit (visit_spec hclosed fuel) ⟨∅, []⟩ hempty hstarts
    (fun x hx => absurd hx (hclosed₀ x)) ((Finset.card_le_card Finset.sdiff_subset).trans_lt hfuel)
  -- nothing is left on the stack
  have hfinished (x : α) (hx : x ∈ s.visited) : x ∈ s.finished := by
    by_contra h
    exact hclosed₀ x ((hextends.opened x).mp ⟨hx, h⟩)
  refine ⟨s, hs, hextends.ok.nodup, fun x => ⟨fun hx => ?_, ?_⟩, fun u hu v hv hback => ?_⟩
  · exact (hextends.reach x hx).resolve_left List.not_mem_nil
  · rintro ⟨start, hstart, hreach⟩
    induction hreach with
    | refl => exact hfinished start (hextends.started start hstart)
    | tail _ hv ih => exact hfinished _ (hextends.ok.successor _ ih _ hv).1
  · exact (hextends.ok.successor u hu v hv).2.resolve_right hback

/-- A visit adds a tree in front of the nodes that were finished before it. -/
theorem visit_append (fuel : ℕ) (visited : Finset α) (accumulator : List α) (node : α) :
    visit successors fuel ⟨visited, accumulator⟩ node =
      (visit successors fuel ⟨visited, []⟩ node).map fun s =>
        { s with finished := s.finished ++ accumulator } := by
  induction fuel generalizing visited accumulator node with
  | zero => rfl
  | succ fuel ih =>
    have hfold (nodes : List α) (visited : Finset α) (tree accumulator : List α) :
        nodes.foldlM (visit successors fuel) ⟨visited, tree ++ accumulator⟩ =
          (nodes.foldlM (visit successors fuel) ⟨visited, tree⟩).map fun s =>
            { s with finished := s.finished ++ accumulator } := by
      induction nodes generalizing visited tree with
      | nil => rfl
      | cons node rest ihn =>
        rw [List.foldlM_cons, List.foldlM_cons, ih visited (tree ++ accumulator),
          ih visited tree]
        cases visit successors fuel ⟨visited, []⟩ node with
        | none => rfl
        | some s =>
          have h := ihn s.visited (s.finished ++ tree)
          rw [List.append_assoc] at h
          exact h
    rw [visit, visit]
    split
    · rfl
    · have h := hfold (successors node) (insert node visited) [] accumulator
      rw [List.nil_append] at h
      rw [h]
      cases (successors node).foldlM (visit successors fuel) ⟨insert node visited, []⟩ <;> rfl

end DepthFirst

end Pysa
