-- SUMMARY: Doubly linked rings: paths and rings of links, what a store to a link does to them, and pools of disjoint rings.
import Mathlib.Data.Multiset.Bind
import Mathlib.Logic.Function.Basic

/-! # Doubly linked rings

Every node has a link to the next node and one to the one before. A null link is `none`. -/

structure Links (A : Type*) where
  next : A → Option A
  prev : A → Option A

namespace Links

variable {A : Type*}

section
variable (h : Links A)

/-- The two links between `a` and `b`. -/
def Linked (a b : A) : Prop := h.next a = some b ∧ h.prev b = some a

/-- The links lead from `a` through the nodes `xs` to `b`, and back. -/
def Path : A → List A → A → Prop
  | a, [], b => h.Linked a b
  | a, x :: xs, b => h.Linked a x ∧ Path x xs b

/-- The nodes of the list are linked in a ring, in this order. -/
def IsRing : List A → Prop
  | [] => True
  | a :: xs => h.Path a xs a

end

/-- The links of nodes not in `l` are the same. -/
def AgreesOff (l : List A) (h h' : Links A) : Prop :=
  ∀ a, a ∉ l → h'.next a = h.next a ∧ h'.prev a = h.prev a

variable {h h' : Links A} {a b c : A} {xs ys l : List A}

theorem AgreesOff.trans {h'' : Links A} (h₁ : AgreesOff l h h') (h₂ : AgreesOff l h' h'') :
    AgreesOff l h h'' := fun a ha =>
  ⟨(h₂ a ha).1.trans (h₁ a ha).1, (h₂ a ha).2.trans (h₁ a ha).2⟩

/-- A path through `y` is a path to it and one from it. -/
theorem path_append : ∀ {a : A} (xs : List A) {y : A} {ys : List A},
    h.Path a (xs ++ y :: ys) b ↔ h.Path a xs y ∧ h.Path y ys b := by
  intro a xs
  induction xs generalizing a with
  | nil => exact Iff.rfl
  | cons x xs ih => exact fun {y ys} => by rw [List.cons_append, Path, Path, ih, and_assoc]

/-- A ring may be read from any of its nodes on. -/
theorem isRing_append_comm (xs ys : List A) : h.IsRing (xs ++ ys) ↔ h.IsRing (ys ++ xs) := by
  cases xs with
  | nil => rw [List.nil_append, List.append_nil]
  | cons a xs =>
    cases ys with
    | nil => rw [List.nil_append, List.append_nil]
    | cons b ys => exact (path_append xs).trans (and_comm.trans (path_append ys).symm)

/-- Only the links along a path matter to it. -/
theorem Path.congr (hpath : h.Path a xs b) (hnext : ∀ d ∈ a :: xs, h'.next d = h.next d)
    (hprev : ∀ d ∈ xs ++ [b], h'.prev d = h.prev d) : h'.Path a xs b := by
  induction xs generalizing a with
  | nil => exact ⟨(hnext a (by simp)).trans hpath.1, (hprev b (by simp)).trans hpath.2⟩
  | cons x xs ih =>
    obtain ⟨hlinked, hrest⟩ := hpath
    refine ⟨⟨(hnext a (by simp)).trans hlinked.1, (hprev x (by simp)).trans hlinked.2⟩, ?_⟩
    exact ih hrest (fun d hd => hnext d (List.mem_cons_of_mem a hd))
      fun d hd => hprev d (List.mem_cons_of_mem x hd)

theorem IsRing.congr (hring : h.IsRing l) (hsame : ∀ d ∈ l, h'.next d = h.next d ∧ h'.prev d = h.prev d) :
    h'.IsRing l := by
  cases l with
  | nil => trivial
  | cons a xs =>
    refine Path.congr hring (fun d hd => (hsame d hd).1) fun d hd => (hsame d ?_).2
    simpa [or_comm] using hd

theorem Path.exists_first (hpath : h.Path a xs b) : ∃ c zs, xs ++ [b] = c :: zs ∧ h.Linked a c := by
  cases xs with
  | nil => exact ⟨b, [], rfl, hpath⟩
  | cons x xs => exact ⟨x, xs ++ [b], rfl, hpath.1⟩

/-- The last link of a path may be set to lead elsewhere. -/
theorem Path.exists_last (hpath : h.Path a xs b) (hnodup : (a :: xs).Nodup) :
    ∃ p ∈ a :: xs, h.prev b = some p ∧
      ∀ (h' : Links A) (c : A), h'.Linked p c → (∀ d ∈ a :: xs, d ≠ p → h'.next d = h.next d) →
        (∀ d ∈ xs, h'.prev d = h.prev d) → h'.Path a xs c := by
  induction xs generalizing a with
  | nil => exact ⟨a, by simp, hpath.2, fun h' c hlinked _ _ => hlinked⟩
  | cons x xs ih =>
    obtain ⟨hlinked, hrest⟩ := hpath
    obtain ⟨hnot, hnodup'⟩ := List.nodup_cons.mp hnodup
    obtain ⟨p, hp, hprev, hturn⟩ := ih hrest hnodup'
    refine ⟨p, List.mem_cons_of_mem a hp, hprev, fun h' c hlinked' hnexts hprevs => ⟨⟨?_, ?_⟩, ?_⟩⟩
    · have hne : a ≠ p := by
        rintro rfl
        exact hnot hp
      exact (hnexts a (by simp) hne).trans hlinked.1
    · exact (hprevs x (by simp)).trans hlinked.2
    · exact hturn h' c hlinked' (fun d hd => hnexts d (List.mem_cons_of_mem a hd))
        fun d hd => hprevs d (List.mem_cons_of_mem x hd)

/-! ## Editing a ring -/

/-- A node is taken out of a ring. -/
theorem IsRing.unlink {e z : A} {zs : List A} (hring : h.IsRing (e :: z :: zs))
    (hnodup : (z :: zs).Nodup) :
    ∃ p ∈ z :: zs, h.prev e = some p ∧ h.next e = some z ∧
      ∀ h' : Links A, h'.Linked p z → (∀ d ∈ z :: zs, d ≠ p → h'.next d = h.next d) →
        (∀ d ∈ zs, h'.prev d = h.prev d) → h'.IsRing (z :: zs) := by
  obtain ⟨hlinked, hpath⟩ : h.Path e (z :: zs) e := hring
  obtain ⟨p, hp, hprev, hturn⟩ := hpath.exists_last hnodup
  exact ⟨p, hp, hprev, hlinked.1, fun h' => hturn h' z⟩

/-- A node is put in before the first one of a ring. -/
theorem IsRing.link (hring : h.IsRing (a :: xs)) (hnodup : (a :: xs).Nodup) (new : A) :
    ∃ p ∈ a :: xs, h.prev a = some p ∧
      ∀ h' : Links A, h'.Linked p new → h'.Linked new a → (∀ d ∈ a :: xs, d ≠ p → h'.next d = h.next d) →
        (∀ d ∈ xs, h'.prev d = h.prev d) → h'.IsRing (a :: xs ++ [new]) := by
  obtain ⟨p, hp, hprev, hturn⟩ := Path.exists_last hring hnodup
  refine ⟨p, hp, hprev, fun h' hfirst hsecond hnexts hprevs => ?_⟩
  exact (path_append xs).mpr ⟨hturn h' new hfirst hnexts hprevs, hsecond⟩

/-- The first node of a ring gives its place to another one. -/
theorem IsRing.replace {old x : A} (hring : h.IsRing (old :: x :: xs)) (hnodup : (x :: xs).Nodup) (new : A) :
    ∃ p ∈ x :: xs, h.prev old = some p ∧ h.next old = some x ∧
      ∀ h' : Links A, h'.Linked new x → h'.Linked p new → (∀ d ∈ x :: xs, d ≠ p → h'.next d = h.next d) →
        (∀ d ∈ xs, h'.prev d = h.prev d) → h'.IsRing (new :: x :: xs) := by
  obtain ⟨hlinked, hpath⟩ : h.Path old (x :: xs) old := hring
  obtain ⟨p, hp, hprev, hturn⟩ := hpath.exists_last hnodup
  exact ⟨p, hp, hprev, hlinked.1, fun h' hfirst hlast hnexts hprevs =>
    ⟨hfirst, hturn h' new hlast hnexts hprevs⟩⟩

/-! ## Pools of rings -/

/-- The nodes of all rings. -/
def nodes (W : Multiset (List A)) : Multiset A := W.bind fun l => (l : Multiset A)

@[simp] theorem nodes_zero : nodes (0 : Multiset (List A)) = 0 := rfl

@[simp] theorem nodes_cons (l : List A) (W : Multiset (List A)) : nodes (l ::ₘ W) = l + nodes W :=
  Multiset.cons_bind l W _

theorem mem_nodes_of_mem {W : Multiset (List A)} (hl : l ∈ W) (ha : a ∈ l) : a ∈ nodes W :=
  Multiset.mem_bind.mpr ⟨l, hl, ha⟩

/-- The rings are linked as they should be, and no node is in two places. -/
structure Pool (h : Links A) (W : Multiset (List A)) : Prop where
  rings : ∀ l ∈ W, h.IsRing l
  nodup : (nodes W).Nodup

/-- One node is one of the nodes. -/
theorem nodes_middle (e : A) (xs ys : List A) (W : Multiset (List A)) :
    nodes ((xs ++ e :: ys) ::ₘ W) = e ::ₘ nodes ((xs ++ ys) ::ₘ W) := by
  have hperm : ((xs ++ e :: ys : List A) : Multiset A) = e ::ₘ (xs ++ ys : List A) :=
    Multiset.coe_eq_coe.mpr List.perm_middle
  rw [nodes_cons, nodes_cons, hperm, Multiset.cons_add]

namespace Pool

variable {V V' W : Multiset (List A)}

theorem head (hpool : h.Pool (l ::ₘ W)) : h.IsRing l ∧ l.Nodup := by
  refine ⟨hpool.rings l (Multiset.mem_cons_self l W), ?_⟩
  have hnodup := hpool.nodup
  rw [nodes_cons] at hnodup
  exact Multiset.coe_nodup.mp (Multiset.nodup_add.mp hnodup).1

theorem not_mem_tail (hpool : h.Pool (l ::ₘ W)) (ha : a ∈ l) : a ∉ nodes W := by
  have hnodup := hpool.nodup
  rw [nodes_cons] at hnodup
  exact Multiset.disjoint_left.mp (Multiset.nodup_add.mp hnodup).2.2 (Multiset.mem_coe.mpr ha)

theorem tail (hpool : h.Pool (l ::ₘ W)) : h.Pool W := by
  refine ⟨fun l' hl' => hpool.rings l' (Multiset.mem_cons_of_mem hl'), ?_⟩
  have hnodup := hpool.nodup
  rw [nodes_cons] at hnodup
  exact (Multiset.nodup_add.mp hnodup).2.1

variable (W) in
/-- Some rings are edited, and those in `W` stay as they are. -/
theorem edit (hpool : h.Pool V) (hagree : AgreesOff l h h') (hW : ∀ l' ∈ W, l' ∈ V)
    (hl : ∀ a ∈ l, a ∉ nodes W) (hrings : ∀ l' ∈ V', h'.IsRing l' ∨ l' ∈ W) (hnodup : (nodes V').Nodup) :
    h'.Pool V' := by
  refine ⟨fun l' hl' => (hrings l' hl').elim id fun hold => ?_, hnodup⟩
  refine (hpool.rings l' (hW l' hold)).congr fun d hd => hagree d fun hmem => ?_
  exact hl d hmem (mem_nodes_of_mem hold hd)

/-- A ring may be written down from any of its nodes on. -/
theorem comm (xs ys : List A) (hpool : h.Pool ((xs ++ ys) ::ₘ W)) : h.Pool ((ys ++ xs) ::ₘ W) := by
  have hperm : ((ys ++ xs : List A) : Multiset A) = (xs ++ ys : List A) :=
    Multiset.coe_eq_coe.mpr List.perm_append_comm
  refine ⟨fun l' hl' => ?_, ?_⟩
  · rcases Multiset.mem_cons.mp hl' with rfl | hold
    · exact (isRing_append_comm xs ys).mp hpool.head.1
    · exact hpool.tail.rings l' hold
  · rw [nodes_cons, hperm, ← nodes_cons]
    exact hpool.nodup

/-- The links of a node that is in no ring are its own. -/
theorem congr (hpool : h.Pool W) (ha : a ∉ nodes W) (hagree : AgreesOff [a] h h') : h'.Pool W := by
  refine hpool.edit W hagree (fun l' => id) (fun d hd => ?_) (fun l' => .inr) hpool.nodup
  rw [List.mem_singleton.mp hd]
  exact ha

/-- A node of a ring is in no other place. -/
theorem not_mem_rest {e : A} (hpool : h.Pool ((xs ++ e :: ys) ::ₘ W)) : e ∉ nodes ((xs ++ ys) ::ₘ W) := by
  have hnodup := hpool.nodup
  rw [nodes_middle] at hnodup
  exact (Multiset.nodup_cons.mp hnodup).1

theorem nodup_rest {e : A} (hpool : h.Pool ((xs ++ e :: ys) ::ₘ W)) : (nodes ((xs ++ ys) ::ₘ W)).Nodup := by
  have hnodup := hpool.nodup
  rw [nodes_middle] at hnodup
  exact (Multiset.nodup_cons.mp hnodup).2

end Pool

end Links
