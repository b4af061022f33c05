/-!
# PolicyDecision.OrderedSet

Finite sets, kept as lists in strictly ascending order.

* `OrderedSet.insert`, `ofList`, `union`, `filter`, `image`: every operation keeps the order.
* `OrderedSet.mem_insert`, `mem_ofList`, `mem_union`: what the members are.
* `OrderedSet.ext`: sets with the same members are the same set.
-/

namespace PolicyDecision

structure OrderedSet (α : Type) [Ord α] where
  items : List α
  ascending : items.Pairwise fun a b => compare a b = .lt

namespace OrderedSet

variable {α β : Type} [Ord α] [Ord β]

def empty : OrderedSet α := ⟨[], .nil⟩

instance : Inhabited (OrderedSet α) := ⟨empty⟩

instance : Membership α (OrderedSet α) := ⟨fun s a => a ∈ s.items⟩

theorem mem_def {s : OrderedSet α} {a : α} : a ∈ s ↔ a ∈ s.items := Iff.rfl

def size (s : OrderedSet α) : Nat := s.items.length

def isEmpty (s : OrderedSet α) : Bool := s.items.isEmpty

def any (s : OrderedSet α) (p : α → Bool) : Bool := s.items.any p

def all (s : OrderedSet α) (p : α → Bool) : Bool := s.items.all p

def singleton (a : α) : OrderedSet α := ⟨[a], List.pairwise_singleton _ a⟩

theorem any_iff {s : OrderedSet α} {p : α → Bool} : s.any p = true ↔ ∃ a ∈ s, p a = true :=
  List.any_eq_true

theorem all_iff {s : OrderedSet α} {p : α → Bool} : s.all p = true ↔ ∀ a ∈ s, p a = true :=
  List.all_eq_true

theorem isEmpty_iff {s : OrderedSet α} : s.isEmpty = true ↔ ∀ a, a ∉ s := by
  simp [isEmpty, mem_def, List.eq_nil_iff_forall_not_mem]

theorem mem_singleton {a b : α} : b ∈ singleton a ↔ b = a := List.mem_singleton

/-- Put a member in front of the first greater one, unless it is there already. -/
def place (a : α) : List α → List α
  | [] => [a]
  | b :: rest =>
    match compare a b with
    | .lt => a :: b :: rest
    | .eq => b :: rest
    | .gt => b :: place a rest

theorem mem_place_of_mem {a b : α} {l : List α} (h : b ∈ place a l) : b = a ∨ b ∈ l := by
  induction l with
  | nil => simpa [place] using h
  | cons c rest ih =>
    simp only [place] at h
    split at h
    · simpa using h
    · exact .inr h
    · rcases List.mem_cons.1 h with rfl | h
      · exact .inr (.head _)
      · exact (ih h).imp id (.tail _)

section

variable [Std.TransOrd α]

theorem place_ascending {a : α} {l : List α} (h : l.Pairwise fun a b => compare a b = .lt) :
    (place a l).Pairwise fun a b => compare a b = .lt := by
  induction l with
  | nil => exact List.pairwise_singleton _ a
  | cons b rest ih =>
    obtain ⟨hb, hr⟩ := List.pairwise_cons.1 h
    simp only [place]
    split
    · rename_i hab
      refine List.pairwise_cons.2 ⟨fun c hc => ?_, h⟩
      rcases List.mem_cons.1 hc with rfl | hc
      · exact hab
      · exact Std.TransCmp.lt_trans hab (hb c hc)
    · exact h
    · rename_i hab
      refine List.pairwise_cons.2 ⟨fun c hc => ?_, ih hr⟩
      rcases mem_place_of_mem hc with rfl | hc
      · exact Std.OrientedCmp.lt_of_gt hab
      · exact hb c hc

def insert (s : OrderedSet α) (a : α) : OrderedSet α :=
  ⟨place a s.items, place_ascending s.ascending⟩

def ofList (items : List α) : OrderedSet α := items.foldl insert empty

/-- The members of both sets. -/
def union (s t : OrderedSet α) : OrderedSet α := t.items.foldl insert s

end

/-- The images of the members. -/
def image [Std.TransOrd β] (f : α → β) (s : OrderedSet α) : OrderedSet β := ofList (s.items.map f)

def filter (p : α → Bool) (s : OrderedSet α) : OrderedSet α :=
  ⟨s.items.filter p, s.ascending.sublist List.filter_sublist⟩

instance [DecidableEq α] : DecidableEq (OrderedSet α) := fun s t =>
  decidable_of_iff (s.items = t.items) (by cases s; cases t; simp)

section

def contains (s : OrderedSet α) (a : α) : Bool := s.items.any fun b => compare a b == .eq

/-- The members of the first set that the second one does not have. -/
def difference (s t : OrderedSet α) : OrderedSet α := s.filter fun a => !t.contains a

variable [Std.LawfulEqOrd α]

theorem contains_iff {s : OrderedSet α} {a : α} : s.contains a = true ↔ a ∈ s := by
  simp [contains, mem_def]

/-- Whether every member of the first set is one of the second. -/
def isSubset (s t : OrderedSet α) : Bool := s.all t.contains

theorem isSubset_iff {s t : OrderedSet α} : s.isSubset t = true ↔ ∀ a ∈ s, a ∈ t := by
  simp [isSubset, all, List.all_eq_true, contains_iff, mem_def]

theorem mem_place {a b : α} {l : List α} : b ∈ place a l ↔ b = a ∨ b ∈ l := by
  refine ⟨mem_place_of_mem, ?_⟩
  induction l with
  | nil => simp [place]
  | cons c rest ih =>
    simp only [place]
    split
    · simp
    · rename_i h
      rw [Std.LawfulEqCmp.compare_eq_iff_eq.1 h]
      simp
    · simp only [List.mem_cons]
      rintro (h | h | h)
      · exact .inr (ih (.inl h))
      · exact .inl h
      · exact .inr (ih (.inr h))

variable [Std.TransOrd α]

theorem mem_insert {s : OrderedSet α} {a b : α} : b ∈ s.insert a ↔ b = a ∨ b ∈ s := mem_place

theorem mem_foldl_insert {l : List α} {s : OrderedSet α} {b : α} :
    b ∈ l.foldl insert s ↔ b ∈ s ∨ b ∈ l := by
  induction l generalizing s with
  | nil => simp
  | cons a rest ih =>
    simp only [List.foldl_cons, ih, mem_insert, List.mem_cons]
    grind

theorem mem_ofList {l : List α} {b : α} : b ∈ ofList l ↔ b ∈ l := by
  rw [ofList, mem_foldl_insert]
  simp [empty, mem_def]

theorem mem_union {s t : OrderedSet α} {b : α} : b ∈ s.union t ↔ b ∈ s ∨ b ∈ t :=
  mem_foldl_insert

theorem mem_image {f : β → α} {s : OrderedSet β} {b : α} :
    b ∈ s.image f ↔ ∃ a ∈ s, f a = b := by
  rw [image, mem_ofList, List.mem_map]
  rfl

omit [Std.LawfulEqOrd α] [Std.TransOrd α] in
theorem mem_filter {p : α → Bool} {s : OrderedSet α} {b : α} :
    b ∈ s.filter p ↔ b ∈ s ∧ p b = true := List.mem_filter

omit [Std.LawfulEqOrd α] in
/-- A list in strictly ascending order is determined by its members. -/
theorem items_eq {l m : List α} (hl : l.Pairwise fun a b => compare a b = .lt)
    (hm : m.Pairwise fun a b => compare a b = .lt) (h : ∀ a, a ∈ l ↔ a ∈ m) : l = m := by
  have irrefl (a : α) : compare a a ≠ .lt := by simp [Std.ReflCmp.compare_self]
  induction l generalizing m with
  | nil =>
    cases m with
    | nil => rfl
    | cons b rest => exact absurd ((h b).2 (.head _)) (by simp)
  | cons a l ih =>
    cases m with
    | nil => exact absurd ((h a).1 (.head _)) (by simp)
    | cons b m =>
      obtain ⟨ha, hl'⟩ := List.pairwise_cons.1 hl
      obtain ⟨hb, hm'⟩ := List.pairwise_cons.1 hm
      have hab : a = b := by
        rcases List.mem_cons.1 ((h a).1 (.head _)) with e | h1
        · exact e
        · rcases List.mem_cons.1 ((h b).2 (.head _)) with e | h2
          · exact e.symm
          · exact absurd (Std.TransCmp.lt_trans (ha b h2) (hb a h1)) (irrefl a)
      subst hab
      congr 1
      refine ih hl' hm' fun c => ⟨fun hc => ?_, fun hc => ?_⟩
      · rcases List.mem_cons.1 ((h c).1 (.tail _ hc)) with rfl | hc'
        · exact absurd (ha c hc) (irrefl c)
        · exact hc'
      · rcases List.mem_cons.1 ((h c).2 (.tail _ hc)) with rfl | hc'
        · exact absurd (hb c hc) (irrefl c)
        · exact hc'

omit [Std.LawfulEqOrd α] in
theorem ext {s t : OrderedSet α} (h : ∀ a, a ∈ s ↔ a ∈ t) : s = t := by
  cases s with
  | mk l hl =>
    cases t with
    | mk m hm =>
      have := items_eq hl hm h
      subst this
      rfl

end

end OrderedSet
end PolicyDecision
