-- SUMMARY: The linked lists of `list.h`: what each operation does to a pool of lists, over whole runs.
import LinuxOta.Base.Ring

namespace LinuxOta.ListHead

/-! # list.h

A pointer is `none` when it is null, and a function that follows a null pointer has no
result. -/

variable {A : Type} [DecidableEq A]

section
variable (p v : Option A) (h : Links A)

/-- `p->next`. -/
def loadNext : Option (Option A) := p.map h.next

/-- `p->prev`. -/
def loadPrev : Option (Option A) := p.map h.prev

/-- `p->next = v`. -/
def storeNext : Option (Links A) := p.map fun a => { h with next := Function.update h.next a v }

/-- `p->prev = v`. -/
def storePrev : Option (Links A) := p.map fun a => { h with prev := Function.update h.prev a v }

end

/-- `INIT_LIST_HEAD`. -/
def initListHead (list : Option A) (h : Links A) : Option (Links A) := do
  let h ← storeNext list list h
  storePrev list list h

/-- `list_empty`. -/
def listEmpty (head : Option A) (h : Links A) : Option Bool := do
  let next ← loadNext head h
  return next == head

/-- `list_empty_careful`. -/
def listEmptyCareful (head : Option A) (h : Links A) : Option Bool := do
  let next ← loadNext head h
  let prev ← loadPrev head h
  return next == head && next == prev

/-- `list_is_head`. -/
def listIsHead (head : Option A) (h : Links A) : Option Bool := do
  let prev ← loadPrev head h
  return prev == head

/-- `__list_add`. -/
def listAddBetween (new prev next : Option A) (h : Links A) : Option (Links A) := do
  let h ← storePrev next new h
  let h ← storeNext new next h
  let h ← storePrev new prev h
  storeNext prev new h

/-- `list_add`. -/
def listAdd (new head : Option A) (h : Links A) : Option (Links A) := do
  let next ← loadNext head h
  listAddBetween new head next h

/-- `list_add_tail`. -/
def listAddTail (new head : Option A) (h : Links A) : Option (Links A) := do
  let prev ← loadPrev head h
  listAddBetween new prev head h

/-- `__list_del`. -/
def listDelBetween (prev next : Option A) (h : Links A) : Option (Links A) := do
  let h ← storePrev next prev h
  storeNext prev next h

/-- `__list_del_entry`. -/
def listDelEntry (entry : Option A) (h : Links A) : Option (Links A) :=
  if entry.isNone then some h
  else do
    let prev ← loadPrev entry h
    let next ← loadNext entry h
    listDelBetween prev next h

/-- `list_del`. -/
def listDel (entry : Option A) (h : Links A) : Option (Links A) :=
  if entry.isNone then some h
  else do
    let h ← listDelEntry entry h
    let h ← storeNext entry none h
    storePrev entry none h

/-- `list_del_init`. -/
def listDelInit (entry : Option A) (h : Links A) : Option (Links A) := do
  let h ← listDelEntry entry h
  initListHead entry h

/-- `list_replace`. -/
def listReplace (old new : Option A) (h : Links A) : Option (Links A) := do
  let next ← loadNext old h
  let h ← storeNext new next h
  let next ← loadNext new h
  let h ← storePrev next new h
  let prev ← loadPrev old h
  let h ← storePrev new prev h
  let prev ← loadPrev new h
  storeNext prev new h

/-- `list_replace_init`. -/
def listReplaceInit (old new : Option A) (h : Links A) : Option (Links A) := do
  let h ← listReplace old new h
  initListHead old h

/-- `list_move`. -/
def listMove (list head : Option A) (h : Links A) : Option (Links A) := do
  let h ← listDelEntry list h
  listAdd list head h

/-- `list_move_tail`. -/
def listMoveTail (list head : Option A) (h : Links A) : Option (Links A) := do
  let h ← listDelEntry list h
  listAddTail list head h

/-! ## What the stores leave -/

variable {h : Links A} {a n p old new : A} {xs ys : List A}

theorem initListHead_eq (a : A) (h : Links A) : initListHead (some a) h =
    some ⟨Function.update h.next a (some a), Function.update h.prev a (some a)⟩ := rfl

theorem listAddBetween_eq (new p n : A) (h : Links A) : listAddBetween (some new) (some p) (some n) h =
    some ⟨Function.update (Function.update h.next new (some n)) p (some new),
      Function.update (Function.update h.prev n (some new)) new (some p)⟩ := rfl

theorem listDelEntry_eq (hprev : h.prev a = some p) (hnext : h.next a = some n) :
    listDelEntry (some a) h =
      some ⟨Function.update h.next p (some n), Function.update h.prev n (some p)⟩ := by
  simp [listDelEntry, loadPrev, loadNext, listDelBetween, storePrev, storeNext, hprev, hnext]

theorem listDel_eq (hprev : h.prev a = some p) (hnext : h.next a = some n) :
    listDel (some a) h =
      some ⟨Function.update (Function.update h.next p (some n)) a none,
        Function.update (Function.update h.prev n (some p)) a none⟩ := by
  simp [listDel, listDelEntry_eq hprev hnext, storePrev, storeNext]

/-- The links of the old node are read as the new one is put in its place. -/
theorem listReplace_eq (hnext : h.next old = some n) (hprev : h.prev old = some p)
    (hn : n ≠ old) : listReplace (some old) (some new) h =
      some ⟨Function.update (Function.update h.next new (some n)) p (some new),
        Function.update (Function.update h.prev n (some new)) new (some p)⟩ := by
  simp [listReplace, loadPrev, loadNext, storePrev, storeNext, hnext, hprev, Function.update_of_ne hn.symm]

theorem listReplace_eq_single (hnext : h.next old = some old) :
    listReplace (some old) (some new) h =
      some ⟨Function.update (Function.update h.next new (some old)) new (some new),
        Function.update (Function.update h.prev old (some new)) new (some new)⟩ := by
  simp [listReplace, loadPrev, loadNext, storePrev, storeNext, hnext]

/-! ## What the operations do to a pool of lists -/

variable {W : Multiset (List A)} {l : List A}

/-- A node is put in front of the first one of a ring. -/
theorem listAddBetween_pool (hpool : h.Pool ((a :: xs) ::ₘ W)) (hnew : new ∉ Links.nodes ((a :: xs) ::ₘ W))
    (hprev : h.prev a = some p) :
    ∃ h', listAddBetween (some new) (some p) (some a) h = some h' ∧ h'.Pool ((a :: xs ++ [new]) ::ₘ W) ∧
      Links.AgreesOff (new :: a :: xs) h h' := by
  obtain ⟨hring, hnodup⟩ := hpool.head
  rw [Links.nodes_cons, Multiset.mem_add, not_or] at hnew
  obtain ⟨hnew, hfree⟩ := hnew
  have hne : ∀ d ∈ a :: xs, d ≠ new := by
    rintro d hd rfl
    exact hnew hd
  obtain ⟨p', hp, hprev', hlink⟩ := hring.link hnodup new
  obtain rfl := Option.some.inj (hprev'.symm.trans hprev)
  have hagree : Links.AgreesOff (new :: a :: xs) h
      ⟨Function.update (Function.update h.next new (some a)) p' (some new),
        Function.update (Function.update h.prev a (some new)) new (some p')⟩ := by
    intro d hd
    have hdp : d ≠ p' := fun heq => hd (heq ▸ List.mem_cons_of_mem new hp)
    simp only [List.mem_cons, not_or] at hd
    simp [hd, hdp]
  refine ⟨_, listAddBetween_eq new p' a h, hpool.edit W hagree ?_ ?_ ?_ ?_, hagree⟩
  · exact fun l' => Multiset.mem_cons_of_mem
  · intro d hd
    rcases List.mem_cons.mp hd with rfl | hd
    · exact hfree
    · exact hpool.not_mem_tail hd
  · intro l' hl'
    rcases Multiset.mem_cons.mp hl' with rfl | hold
    swap
    · exact .inr hold
    refine .inl (hlink _ ?_ ?_ ?_ ?_)
    · simp [Links.Linked]
    · have ha := hne a (by simp)
      simp [Links.Linked, (hne p' hp).symm, ha]
    · intro d hd hdp
      simp [hne d hd, hdp]
    · intro d hd
      have hda : d ≠ a := fun heq => (List.nodup_cons.mp hnodup).1 (heq ▸ hd)
      simp [hne d (List.mem_cons_of_mem a hd), hda]
  · rw [Links.nodes_middle, List.append_nil, Multiset.nodup_cons, Links.nodes_cons, Multiset.mem_add, not_or]
    refine ⟨⟨hnew, hfree⟩, ?_⟩
    rw [← Links.nodes_cons]
    exact hpool.nodup

theorem listAddTail_pool (hpool : h.Pool ((a :: xs) ::ₘ W)) (hnew : new ∉ Links.nodes ((a :: xs) ::ₘ W)) :
    ∃ h', listAddTail (some new) (some a) h = some h' ∧ h'.Pool ((a :: xs ++ [new]) ::ₘ W) := by
  obtain ⟨p, -, hprev, -⟩ := hpool.head.1.link hpool.head.2 new
  obtain ⟨h', heq, hpool', -⟩ := listAddBetween_pool hpool hnew hprev
  refine ⟨h', ?_, hpool'⟩
  rw [← heq, listAddTail, loadPrev, Option.map_some, hprev]
  rfl

/-- What follows the head is the first one of the same ring, read from there on. -/
theorem listAdd_pool (hpool : h.Pool ((a :: xs) ::ₘ W)) (hnew : new ∉ Links.nodes ((a :: xs) ::ₘ W)) :
    ∃ h', listAdd (some new) (some a) h = some h' ∧ h'.Pool ((a :: new :: xs) ::ₘ W) := by
  obtain ⟨c, zs, hcons, hlinked⟩ : ∃ c zs, xs ++ [a] = c :: zs ∧ h.Linked a c :=
    Links.Path.exists_first hpool.head.1
  have hpool₁ : h.Pool ((xs ++ [a]) ::ₘ W) := Links.Pool.comm [a] xs hpool
  have hnew₁ : new ∉ Links.nodes ((xs ++ [a]) ::ₘ W) := by
    rwa [Links.nodes_middle, List.append_nil, ← List.nil_append xs, ← Links.nodes_middle]
  rw [hcons] at hpool₁ hnew₁
  obtain ⟨h', heq, hpool', -⟩ := listAddBetween_pool hpool₁ hnew₁ hlinked.2
  refine ⟨h', ?_, ?_⟩
  · rw [← heq, listAdd, loadNext, Option.map_some, hlinked.1]
    rfl
  · rw [← hcons, List.append_assoc] at hpool'
    exact Links.Pool.comm xs [a, new] hpool'

/-- An entry is taken out. Its own links stay as they are. -/
theorem listDelEntry_pool {e : A} (hpool : h.Pool ((xs ++ e :: ys) ::ₘ W)) :
    ∃ p n, h.prev e = some p ∧ h.next e = some n ∧
      listDelEntry (some e) h = some ⟨Function.update h.next p (some n), Function.update h.prev n (some p)⟩ ∧
      Links.Pool ⟨Function.update h.next p (some n), Function.update h.prev n (some p)⟩ ((xs ++ ys) ::ₘ W) := by
  have hpool₁ : h.Pool ((e :: (ys ++ xs)) ::ₘ W) := Links.Pool.comm xs (e :: ys) hpool
  have hedit : ∀ {h' : Links A}, Links.AgreesOff (e :: (ys ++ xs)) h h' → h'.IsRing (ys ++ xs) →
      h'.Pool ((xs ++ ys) ::ₘ W) := by
    intro h' hagree hring
    refine hpool₁.edit W hagree (fun l' => Multiset.mem_cons_of_mem) (fun d => hpool₁.not_mem_tail) ?_
      hpool.nodup_rest
    intro l' hl'
    refine (Multiset.mem_cons.mp hl').imp_left fun heq => ?_
    rw [heq]
    exact (Links.isRing_append_comm ys xs).mp hring
  obtain ⟨hring, hnodup⟩ := hpool₁.head
  generalize ys ++ xs = zs at *
  cases zs with
  | nil =>
    obtain ⟨hnext, hprev⟩ : h.Linked e e := hring
    refine ⟨e, e, hprev, hnext, listDelEntry_eq hprev hnext, hedit ?_ trivial⟩
    intro d hd
    simp only [List.mem_cons, List.not_mem_nil, or_false] at hd
    simp [hd]
  | cons z zs =>
    obtain ⟨hnot, hnodup⟩ := List.nodup_cons.mp hnodup
    obtain ⟨p, hp, hprev, hnext, hunlink⟩ := hring.unlink hnodup
    refine ⟨p, z, hprev, hnext, listDelEntry_eq hprev hnext, hedit ?_ (hunlink _ ?_ ?_ ?_)⟩
    · intro d hd
      have hdp : d ≠ p := fun heq => hd (heq ▸ List.mem_cons_of_mem e hp)
      simp only [List.mem_cons, not_or] at hd
      simp [hd, hdp]
    · simp [Links.Linked]
    · intro d _ hdp
      simp [hdp]
    · intro d hd
      have hdz : d ≠ z := fun heq => (List.nodup_cons.mp hnodup).1 (heq ▸ hd)
      simp [hdz]

/-- A node that is in no list becomes an empty one. -/
theorem initListHead_pool (hpool : h.Pool W) (ha : a ∉ Links.nodes W) :
    ∃ h', initListHead (some a) h = some h' ∧ h'.Pool ([a] ::ₘ W) := by
  refine ⟨_, initListHead_eq a h, hpool.edit W (l := [a]) ?_ (fun l' => id) ?_ ?_ ?_⟩
  · intro d hd
    simp only [List.mem_cons, List.not_mem_nil, or_false] at hd
    simp [hd]
  · intro d hd
    rw [List.mem_singleton.mp hd]
    exact ha
  · intro l' hl'
    refine (Multiset.mem_cons.mp hl').imp_left fun heq => ?_
    rw [heq]
    simp [Links.IsRing, Links.Path, Links.Linked]
  · rw [Links.nodes_cons, Multiset.coe_singleton, Multiset.singleton_add, Multiset.nodup_cons]
    exact ⟨ha, hpool.nodup⟩

theorem listDel_pool {e : A} (hpool : h.Pool ((xs ++ e :: ys) ::ₘ W)) :
    ∃ h', listDel (some e) h = some h' ∧ h'.Pool ((xs ++ ys) ::ₘ W) ∧ h'.next e = none ∧ h'.prev e = none := by
  obtain ⟨p, n, hprev, hnext, -, hpool'⟩ := listDelEntry_pool hpool
  refine ⟨_, listDel_eq hprev hnext, hpool'.congr hpool.not_mem_rest ?_, by simp, by simp⟩
  intro d hd
  simp only [List.mem_cons, List.not_mem_nil, or_false] at hd
  simp [hd]

theorem listDelInit_pool {e : A} (hpool : h.Pool ((xs ++ e :: ys) ::ₘ W)) :
    ∃ h', listDelInit (some e) h = some h' ∧ h'.Pool ([e] ::ₘ (xs ++ ys) ::ₘ W) := by
  obtain ⟨p, n, -, -, heq, hpool'⟩ := listDelEntry_pool hpool
  obtain ⟨h', heq', hpool''⟩ := initListHead_pool hpool' hpool.not_mem_rest
  exact ⟨h', by rw [listDelInit, heq]; exact heq', hpool''⟩

theorem listReplace_pool (hpool : h.Pool ((xs ++ old :: ys) ::ₘ W))
    (hnew : new ∉ Links.nodes ((xs ++ old :: ys) ::ₘ W)) :
    ∃ h', listReplace (some old) (some new) h = some h' ∧ h'.Pool ((xs ++ new :: ys) ::ₘ W) := by
  have hpool₁ : h.Pool ((old :: (ys ++ xs)) ::ₘ W) := Links.Pool.comm xs (old :: ys) hpool
  rw [Links.nodes_middle, Multiset.mem_cons, not_or] at hnew
  obtain ⟨hne, hrest⟩ := hnew
  have hperm : ((xs ++ ys : List A) : Multiset A) = (ys ++ xs : List A) :=
    Multiset.coe_eq_coe.mpr List.perm_append_comm
  have hfree : new ∉ Links.nodes W ∧ new ∉ ys ++ xs := by
    rwa [Links.nodes_cons, hperm, Multiset.mem_add, not_or, Multiset.mem_coe, and_comm] at hrest
  have hedit : ∀ {h' : Links A}, Links.AgreesOff (new :: old :: (ys ++ xs)) h h' →
      h'.IsRing (new :: (ys ++ xs)) → h'.Pool ((xs ++ new :: ys) ::ₘ W) := by
    intro h' hagree hring
    refine hpool₁.edit W hagree (fun l' => Multiset.mem_cons_of_mem) (fun d hd => ?_) (fun l' hl' => ?_) ?_
    · rcases List.mem_cons.mp hd with rfl | hd
      · exact hfree.1
      · exact hpool₁.not_mem_tail hd
    · refine (Multiset.mem_cons.mp hl').imp_left fun heq => ?_
      rw [heq]
      exact (Links.isRing_append_comm (new :: ys) xs).mp hring
    · rw [Links.nodes_middle, Multiset.nodup_cons]
      exact ⟨hrest, hpool.nodup_rest⟩
  obtain ⟨hring, hnodup⟩ := hpool₁.head
  have hdiff := hfree.2
  generalize ys ++ xs = zs at *
  cases zs with
  | nil =>
    obtain ⟨hnext, -⟩ : h.Linked old old := hring
    refine ⟨_, listReplace_eq_single hnext, hedit ?_ ?_⟩
    · intro d hd
      simp only [List.mem_cons, List.not_mem_nil, or_false, not_or] at hd
      simp [hd]
    · simp [Links.IsRing, Links.Path, Links.Linked]
  | cons x zs =>
    obtain ⟨hnot, hnodup⟩ := List.nodup_cons.mp hnodup
    obtain ⟨p, hp, hprev, hnext, hreplace⟩ := hring.replace hnodup new
    have hother : ∀ d ∈ x :: zs, d ≠ new := by
      rintro d hd rfl
      exact hdiff hd
    have hx : x ≠ old := by
      rintro rfl
      exact hnot (by simp)
    refine ⟨_, listReplace_eq hnext hprev hx, hedit ?_ (hreplace _ ?_ ?_ ?_ ?_)⟩
    · intro d hd
      have hdp : d ≠ p := fun heq => hd (heq ▸ List.mem_cons_of_mem new (List.mem_cons_of_mem old hp))
      simp only [List.mem_cons, not_or] at hd
      simp [hd, hdp]
    · simp [Links.Linked, (hother p hp).symm, hother x (by simp)]
    · simp [Links.Linked]
    · intro d hd hdp
      simp [hother d hd, hdp]
    · intro d hd
      have hdx : d ≠ x := fun heq => (List.nodup_cons.mp hnodup).1 (heq ▸ hd)
      simp [hother d (List.mem_cons_of_mem x hd), hdx]

theorem listReplaceInit_pool (hpool : h.Pool ((xs ++ old :: ys) ::ₘ W))
    (hnew : new ∉ Links.nodes ((xs ++ old :: ys) ::ₘ W)) :
    ∃ h', listReplaceInit (some old) (some new) h = some h' ∧ h'.Pool ([old] ::ₘ (xs ++ new :: ys) ::ₘ W) := by
  obtain ⟨h', heq, hpool'⟩ := listReplace_pool hpool hnew
  have hold : old ∉ Links.nodes ((xs ++ new :: ys) ::ₘ W) := by
    rw [Links.nodes_middle, Multiset.mem_cons, not_or] at hnew ⊢
    exact ⟨hnew.1 ∘ Eq.symm, hpool.not_mem_rest⟩
  obtain ⟨h'', heq', hpool''⟩ := initListHead_pool hpool' hold
  exact ⟨h'', by rw [listReplaceInit, heq]; exact heq', hpool''⟩

/-- The entry goes from its own list, which may be the same one, to the list of `a`. -/
theorem listMove_pool {e : A} {zs : List A} {V : Multiset (List A)} (hpool : h.Pool ((xs ++ e :: ys) ::ₘ W))
    (hsame : (xs ++ ys) ::ₘ W = (a :: zs) ::ₘ V) :
    (∃ h', listMove (some e) (some a) h = some h' ∧ h'.Pool ((a :: e :: zs) ::ₘ V)) ∧
    ∃ h', listMoveTail (some e) (some a) h = some h' ∧ h'.Pool ((a :: zs ++ [e]) ::ₘ V) := by
  obtain ⟨p, n, -, -, heq, hpool'⟩ := listDelEntry_pool hpool
  have hfree : e ∉ Links.nodes ((a :: zs) ::ₘ V) := hsame ▸ hpool.not_mem_rest
  rw [hsame] at hpool'
  constructor
  · obtain ⟨h', heq', hpool''⟩ := listAdd_pool hpool' hfree
    exact ⟨h', by rw [listMove, heq]; exact heq', hpool''⟩
  · obtain ⟨h', heq', hpool''⟩ := listAddTail_pool hpool' hfree
    exact ⟨h', by rw [listMoveTail, heq]; exact heq', hpool''⟩

/-- Only an empty list has a head that is followed, or preceded, by itself: `list_is_head` asks
the same as `list_empty`. -/
theorem listEmpty_pool (hpool : h.Pool ((a :: xs) ::ₘ W)) :
    listEmpty (some a) h = some xs.isEmpty ∧ listEmptyCareful (some a) h = some xs.isEmpty ∧
      listIsHead (some a) h = some xs.isEmpty := by
  obtain ⟨hring, hnodup⟩ := hpool.head
  cases xs with
  | nil =>
    obtain ⟨hnext, hprev⟩ : h.Linked a a := hring
    simp [listEmpty, listEmptyCareful, listIsHead, loadNext, loadPrev, hnext, hprev]
  | cons x xs =>
    obtain ⟨hlinked, hpath⟩ : h.Path a (x :: xs) a := hring
    obtain ⟨hnot, hnodup⟩ := List.nodup_cons.mp hnodup
    obtain ⟨p, hp, hprev, -⟩ := hpath.exists_last hnodup
    have hxa : x ≠ a := by
      rintro rfl
      exact hnot (by simp)
    have hpa : p ≠ a := by
      rintro rfl
      exact hnot hp
    simp [listEmpty, listEmptyCareful, listIsHead, loadNext, loadPrev, hlinked.1, hprev, hxa, hpa]

/-! ## Runs -/

/-- A call of one of the functions on nodes. -/
inductive ListOp (A : Type) where
  | initListHead (list : A)
  | listAdd (new head : A)
  | listAddTail (new head : A)
  | listDel (entry : A)
  | listDelInit (entry : A)
  | listReplace (old new : A)
  | listReplaceInit (old new : A)
  | listMove (list head : A)
  | listMoveTail (list head : A)
  deriving DecidableEq, Repr

def ListOp.exec (h : Links A) : ListOp A → Option (Links A)
  | initListHead list => ListHead.initListHead (some list) h
  | listAdd new head => ListHead.listAdd (some new) (some head) h
  | listAddTail new head => ListHead.listAddTail (some new) (some head) h
  | listDel entry => ListHead.listDel (some entry) h
  | listDelInit entry => ListHead.listDelInit (some entry) h
  | listReplace old new => ListHead.listReplace (some old) (some new) h
  | listReplaceInit old new => ListHead.listReplaceInit (some old) (some new) h
  | listMove list head => ListHead.listMove (some list) (some head) h
  | listMoveTail list head => ListHead.listMoveTail (some list) (some head) h

/-- Node `a` is in none of the lists `V`, or at most the head of an empty one. The other lists
are `W`. -/
def Spare (a : A) (V W : Multiset (List A)) : Prop :=
  a ∉ Links.nodes W ∧ (V = W ∨ V = [a] ::ₘ W)

/-- What an operation makes of the lists: each is written down with its head first. -/
inductive Changes : ListOp A → Multiset (List A) → Multiset (List A) → Prop where
  | initListHead {a : A} {V W : Multiset (List A)} (h : Spare a V W) :
    Changes (.initListHead a) V ([a] ::ₘ W)
  | listAdd {new a : A} {xs : List A} {V W : Multiset (List A)} (h : Spare new V ((a :: xs) ::ₘ W)) :
    Changes (.listAdd new a) V ((a :: new :: xs) ::ₘ W)
  | listAddTail {new a : A} {xs : List A} {V W : Multiset (List A)} (h : Spare new V ((a :: xs) ::ₘ W)) :
    Changes (.listAddTail new a) V ((a :: xs ++ [new]) ::ₘ W)
  | listDel {e : A} {xs ys : List A} {W : Multiset (List A)} :
    Changes (.listDel e) ((xs ++ e :: ys) ::ₘ W) ((xs ++ ys) ::ₘ W)
  | listDelInit {e : A} {xs ys : List A} {W : Multiset (List A)} :
    Changes (.listDelInit e) ((xs ++ e :: ys) ::ₘ W) ([e] ::ₘ (xs ++ ys) ::ₘ W)
  | listReplace {old new : A} {xs ys : List A} {V W : Multiset (List A)}
      (h : Spare new V ((xs ++ old :: ys) ::ₘ W)) :
    Changes (.listReplace old new) V ((xs ++ new :: ys) ::ₘ W)
  | listReplaceInit {old new : A} {xs ys : List A} {V W : Multiset (List A)}
      (h : Spare new V ((xs ++ old :: ys) ::ₘ W)) :
    Changes (.listReplaceInit old new) V ([old] ::ₘ (xs ++ new :: ys) ::ₘ W)
  | listMove {e a : A} {xs ys zs : List A} {V W : Multiset (List A)}
      (h : (xs ++ ys) ::ₘ W = (a :: zs) ::ₘ V) :
    Changes (.listMove e a) ((xs ++ e :: ys) ::ₘ W) ((a :: e :: zs) ::ₘ V)
  | listMoveTail {e a : A} {xs ys zs : List A} {V W : Multiset (List A)}
      (h : (xs ++ ys) ::ₘ W = (a :: zs) ::ₘ V) :
    Changes (.listMoveTail e a) ((xs ++ e :: ys) ::ₘ W) ((a :: zs ++ [e]) ::ₘ V)

omit [DecidableEq A] in
theorem Spare.pool {V : Multiset (List A)} (hspare : Spare a V W) (hpool : h.Pool V) : h.Pool W := by
  rcases hspare.2 with rfl | rfl
  · exact hpool
  · exact hpool.tail

/-- An operation that is used as it should be goes through, and changes the lists as it
should. -/
theorem exec_pool {V : Multiset (List A)} {op : ListOp A} (hpool : h.Pool V) (hop : Changes op V W) :
    ∃ h', op.exec h = some h' ∧ h'.Pool W := by
  cases hop with
  | initListHead hspare => exact initListHead_pool (hspare.pool hpool) hspare.1
  | listAdd hspare => exact listAdd_pool (hspare.pool hpool) hspare.1
  | listAddTail hspare => exact listAddTail_pool (hspare.pool hpool) hspare.1
  | listDel =>
    obtain ⟨h', heq, hpool', -⟩ := listDel_pool hpool
    exact ⟨h', heq, hpool'⟩
  | listDelInit => exact listDelInit_pool hpool
  | listReplace hspare => exact listReplace_pool (hspare.pool hpool) hspare.1
  | listReplaceInit hspare => exact listReplaceInit_pool (hspare.pool hpool) hspare.1
  | listMove hsame => exact (listMove_pool hpool hsame).1
  | listMoveTail hsame => exact (listMove_pool hpool hsame).2

/-- A run of operations, each of which is used as it should be. -/
inductive ListRun : List (ListOp A) → Multiset (List A) → Multiset (List A) → Prop where
  | nil {W : Multiset (List A)} : ListRun [] W W
  | cons {op : ListOp A} {ops : List (ListOp A)} {V V' W : Multiset (List A)} (hop : Changes op V V')
      (hrest : ListRun ops V' W) : ListRun (op :: ops) V W

/-- Through every such run the links are those of the lists, and each list is found empty when it
is. -/
theorem listRun_pool {V : Multiset (List A)} {ops : List (ListOp A)} (hpool : h.Pool V)
    (hrun : ListRun ops V W) :
    ∃ h', ops.foldlM ListOp.exec h = some h' ∧ h'.Pool W ∧
      ∀ a xs, a :: xs ∈ W → listEmpty (some a) h' = some xs.isEmpty ∧
        listEmptyCareful (some a) h' = some xs.isEmpty ∧ listIsHead (some a) h' = some xs.isEmpty := by
  induction hrun generalizing h with
  | nil =>
    refine ⟨h, rfl, hpool, fun a xs hmem => ?_⟩
    obtain ⟨W', rfl⟩ := Multiset.exists_cons_of_mem hmem
    exact listEmpty_pool hpool
  | cons hop _ ih =>
    obtain ⟨h', heq, hpool'⟩ := exec_pool hpool hop
    obtain ⟨h'', heq', hrest⟩ := ih hpool'
    exact ⟨h'', by rw [List.foldlM_cons, heq]; exact heq', hrest⟩

/-- Two nodes are added to a list, and one of them is moved to its front. -/
def addTwo : List (ListOp Nat) := [.initListHead 0, .listAdd 1 0, .listAddTail 2 0, .listMove 2 0]

theorem listRun_pool_addTwo : ∃ h', addTwo.foldlM ListOp.exec ⟨fun _ => none, fun _ => none⟩ = some h' ∧
    h'.Pool {[0, 2, 1]} ∧ ∀ a xs, a :: xs ∈ ({[0, 2, 1]} : Multiset (List Nat)) →
      listEmpty (some a) h' = some xs.isEmpty ∧ listEmptyCareful (some a) h' = some xs.isEmpty ∧
        listIsHead (some a) h' = some xs.isEmpty := by
  have hspare : ∀ {a : Nat} {l : List Nat}, a ∉ l → Spare a {l} (l ::ₘ 0) := by
    intro a l ha
    refine ⟨?_, .inl rfl⟩
    rw [Links.nodes_cons, Links.nodes_zero, add_zero]
    exact ha
  have hmove : Changes (.listMove 2 0) (([0, 1] ++ 2 :: []) ::ₘ 0) ((0 :: 2 :: [1]) ::ₘ 0) := .listMove rfl
  refine listRun_pool (V := 0) ⟨by simp, by simp⟩ (.cons (.initListHead ⟨by simp, .inl rfl⟩) ?_)
  exact .cons (.listAdd (hspare (by decide))) (.cons (.listAddTail (hspare (by decide))) (.cons hmove .nil))

end LinuxOta.ListHead
