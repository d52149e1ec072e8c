import Mathlib.Data.List.Nodup
import ProjectSetup.Proofs.Catalog.Reachability
import ProjectSetup.Proofs.Catalog.Selection

/-!
# What the checks of a selection report

The check of dependencies looks one step far. A selection that passes it nevertheless holds all that
its members depend on through others, cycles and raw catalogs included. The check of exclusions
compares each member with those after it. It has one message for each member that conflicts with a
later one, and so one for each pair that conflicts, whichever of the two declares it.
-/
namespace ProjectSetup.Catalog

variable {c : Catalog} {selection later : List Nat} {id a b : Nat}

theorem checkDependencies_eq_valid :
    c.checkDependencies selection = .valid ↔
      ∀ a ∈ selection, a < c.size ∧ ∀ b, c.DependsOn a b → b ∈ selection := by
  rw [checkDependencies, ofErrors_eq_valid, List.map_eq_nil_iff, dependencyComplaints_eq_nil]

/-- Ways of any length stay in a selection that single dependencies do not leave. -/
theorem mem_of_reaches (closed : ∀ a ∈ selection, ∀ b, c.DependsOn a b → b ∈ selection)
    (ha : a ∈ selection) (h : c.Reaches a b) : b ∈ selection := by
  induction h with
  | single h => exact closed a ha _ h
  | tail _ h ih => exact closed _ ih _ h

/-- To check direct dependencies is enough: a selection passes iff its members and everything that
the search finds from them are selected extensions of the catalog. -/
theorem checkDependencies_valid_iff (c : Catalog) (selection : List Nat) :
    c.checkDependencies selection = .valid ↔
      ∀ s ∈ selection, s < c.size ∧ ∀ d ∈ c.deepDependencies s, d ∈ selection ∧ d < c.size := by
  simp only [checkDependencies_eq_valid, mem_deepDependencies]
  constructor
  · intro h s hs
    refine ⟨(h s hs).1, fun d hd => ?_⟩
    have hmem := mem_of_reaches (fun a ha => (h a ha).2) hs hd
    exact ⟨hmem, (h d hmem).1⟩
  · intro h s hs
    exact ⟨(h s hs).1, fun d hd => ((h s hs).2 d (.single hd)).1⟩

/-- Two extensions that need each other, beside one that refers out of the catalog. -/
example :
    let c : Catalog := ⟨[⟨0, "A", .library, [1], []⟩, ⟨1, "B", .library, [0], []⟩,
      ⟨2, "C", .library, [7], []⟩]⟩
    c.checkDependencies [1, 0] = .valid ∧ c.deepDependencies 0 = [1, 0] ∧
      c.checkDependencies [2] = .invalid ["C depends on #7, which must also be selected"] := by
  decide +kernel

theorem before_cons : [a, b].Sublist (id :: later) ↔ [a, b].Sublist later ∨ a = id ∧ b ∈ later := by
  rw [List.cons_sublist_cons', List.singleton_sublist]

theorem mem_of_before (h : [a, b].Sublist selection) : a ∈ selection ∧ b ∈ selection :=
  ⟨h.subset (by simp), h.subset (by simp)⟩

/-- Without repeats one member cannot stand on both sides of another. -/
theorem not_before_of_before (nodup : selection.Nodup) (h : [a, b].Sublist selection) :
    ¬ [b, a].Sublist selection := by
  induction selection with
  | nil => simp at h
  | cons id later ih =>
    obtain ⟨hid, hlater⟩ := List.nodup_cons.1 nodup
    rw [before_cons] at h ⊢
    rintro (hba | ⟨rfl, hba⟩)
    · rcases h with hab | ⟨rfl, -⟩
      · exact ih hlater hab hba
      · exact hid (mem_of_before hba).2
    · rcases h with hab | ⟨rfl, hab⟩
      · exact hid (mem_of_before hab).2
      · exact hid hab

theorem before_or_before (ha : a ∈ selection) (hb : b ∈ selection) (hab : a ≠ b) :
    [a, b].Sublist selection ∨ [b, a].Sublist selection := by
  induction selection with
  | nil => cases ha
  | cons id later ih =>
    rw [before_cons, before_cons]
    rcases List.mem_cons.1 ha with rfl | ha'
    · exact .inl (.inr ⟨rfl, (List.mem_cons.1 hb).resolve_left hab.symm⟩)
    · rcases List.mem_cons.1 hb with rfl | hb'
      · exact .inr (.inr ⟨rfl, ha'⟩)
      · exact (ih ha' hb').imp .inl .inl

/-- One of two extensions excludes the other. -/
def Conflict (c : Catalog) (a b : Nat) : Prop := c.Excludes a b ∨ c.Excludes b a

/-- Two selected extensions that conflict, the one selected first in front. -/
def Clashes (c : Catalog) (selection : List Nat) (a b : Nat) : Prop :=
  [a, b].Sublist selection ∧ c.Conflict a b

theorem clashes_cons_of_ne (hne : a ≠ id) :
    c.Clashes (id :: later) a b ↔ c.Clashes later a b := by
  rw [Clashes, before_cons, Clashes]
  simp [hne]

theorem clashes_cons_self (hid : id ∉ later) :
    c.Clashes (id :: later) id b ↔ b ∈ later ∧ c.Conflict id b := by
  have hno : ¬ [id, b].Sublist later := fun h => hid (mem_of_before h).1
  rw [Clashes, before_cons]
  simp [hno]

/-- What one member is told: nothing if it goes with all that come after it, and otherwise the later
ones that it conflicts with, in their order. -/
theorem exclusivityComplaint?_cases {e : Extension} (he : c.get? id = some e) (hid : id ∉ later) :
    (c.exclusivityComplaint? id later = none ∧ ∀ b, ¬ c.Clashes (id :: later) id b) ∨
      ∃ others, c.exclusivityComplaint? id later = some (.conflict e others) ∧ others ≠ [] ∧
        others.Sublist later ∧ ∀ b, b ∈ others ↔ c.Clashes (id :: later) id b := by
  have hmem (b : Nat) : b ∈ later.filter (fun other => other != id && c.exclusive id other) ↔
      c.Clashes (id :: later) id b := by
    have hne : b ∈ later → b ≠ id := fun hb h => hid (h ▸ hb)
    rw [clashes_cons_self hid, List.mem_filter, Bool.and_eq_true, bne_iff_ne, exclusive_iff,
      Conflict]
    exact ⟨fun h => ⟨h.1, h.2.2⟩, fun h => ⟨h.1, hne h.1, h.2⟩⟩
  simp only [exclusivityComplaint?, he]
  split
  · next hnone =>
    refine .inl ⟨rfl, fun b hb => ?_⟩
    rw [← hmem, hnone] at hb
    cases hb
  · next hne =>
    exact .inr ⟨_, rfl, hne, List.filter_sublist, hmem⟩

/-- A selected extension, and those selected after it that it cannot be combined with. -/
structure Notice where
  id : Nat
  others : List Nat
  deriving DecidableEq, Repr

/-- Whether a notice is about two extensions, named in either order. -/
def Notice.Joins (n : Notice) (a b : Nat) : Prop :=
  n.id = a ∧ b ∈ n.others ∨ n.id = b ∧ a ∈ n.others

instance (n : Notice) (a b : Nat) : Decidable (n.Joins a b) :=
  inferInstanceAs (Decidable (n.id = a ∧ b ∈ n.others ∨ n.id = b ∧ a ∈ n.others))

theorem Notice.joins_comm (n : Notice) (a b : Nat) : n.Joins a b ↔ n.Joins b a := or_comm

def noticeText (c : Catalog) (n : Notice) : String :=
  s!"{c.nameOf n.id} cannot be combined with {c.nameList n.others}"

theorem complaintText_conflict {e : Extension} (he : c.get? id = some e) (others : List Nat) :
    c.complaintText (.conflict e others) = c.noticeText ⟨id, others⟩ := by
  have hname : c.nameOf id = e.name := by rw [nameOf, he]
  rw [noticeText, hname]
  rfl

/-- The notices are those that a selection calls for, in its order. -/
structure Notified (c : Catalog) (selection : List Nat) (notices : List Notice) : Prop where
  inOrder : (notices.map Notice.id).Sublist selection
  /-- There is a notice for each member that conflicts with a later one. -/
  due : ∀ a, a ∈ notices.map Notice.id ↔ ∃ b, c.Clashes selection a b
  othersInOrder : ∀ n ∈ notices, n.others.Sublist selection
  others : ∀ n ∈ notices, ∀ b, b ∈ n.others ↔ c.Clashes selection n.id b

namespace Notified

variable {notices : List Notice}

theorem nil : c.Notified [] [] := ⟨.slnil, by simp [Clashes], by simp, by simp⟩

theorem ne_of_not_mem (h : c.Notified later notices) (hid : id ∉ later) {n : Notice}
    (hn : n ∈ notices) : n.id ≠ id :=
  fun he => hid (he ▸ h.inOrder.subset (List.mem_map_of_mem hn))

/-- A member without a conflict behind it adds nothing. -/
theorem skip (h : c.Notified later notices) (hid : id ∉ later)
    (hnone : ∀ b, ¬ c.Clashes (id :: later) id b) : c.Notified (id :: later) notices where
  inOrder := h.inOrder.cons id
  due a := by
    by_cases ha : a = id
    · subst ha
      exact iff_of_false (fun hmem => hid (h.inOrder.subset hmem)) (fun ⟨b, hb⟩ => hnone b hb)
    · simp only [h.due, clashes_cons_of_ne ha]
  othersInOrder n hn := (h.othersInOrder n hn).cons id
  others n hn b := by rw [h.others n hn, clashes_cons_of_ne (h.ne_of_not_mem hid hn)]

/-- A member with a conflict behind it adds its notice in front. -/
theorem add (h : c.Notified later notices) (hid : id ∉ later) {others : List Nat}
    (hne : others ≠ []) (hsub : others.Sublist later)
    (hmem : ∀ b, b ∈ others ↔ c.Clashes (id :: later) id b) :
    c.Notified (id :: later) (⟨id, others⟩ :: notices) where
  inOrder := h.inOrder.cons_cons id
  due a := by
    rw [List.map_cons, List.mem_cons]
    by_cases ha : a = id
    · subst ha
      obtain ⟨b, hb⟩ := List.exists_mem_of_ne_nil others hne
      exact iff_of_true (.inl rfl) ⟨b, (hmem b).1 hb⟩
    · simp only [ha, false_or, h.due, clashes_cons_of_ne ha]
  othersInOrder := List.forall_mem_cons.2 ⟨hsub.cons id, fun n hn => (h.othersInOrder n hn).cons id⟩
  others := List.forall_mem_cons.2 ⟨hmem, fun n hn b => by
    rw [h.others n hn, clashes_cons_of_ne (h.ne_of_not_mem hid hn)]⟩

/-- A pair that conflicts has one notice, that of the extension selected first. -/
theorem exists_filter_joins (h : c.Notified selection notices) (nodup : selection.Nodup)
    (hc : c.Clashes selection a b) :
    ∃ n, notices.filter (fun n => decide (n.Joins a b)) = [n] ∧ n.id = a := by
  have hids : (notices.map Notice.id).Nodup := nodup.sublist h.inOrder
  obtain ⟨n, hn, rfl⟩ := List.mem_map.1 ((h.due a).2 ⟨b, hc⟩)
  have hb : b ∈ n.others := (h.others n hn b).2 hc
  refine ⟨n, List.perm_singleton.1 ?_, rfl⟩
  refine (List.perm_ext_iff_of_nodup (hids.of_map.filter _) (List.nodup_singleton n)).2 fun m => ?_
  rw [List.mem_filter, decide_eq_true_eq, List.mem_singleton]
  constructor
  · rintro ⟨hm, ⟨hid, -⟩ | ⟨rfl, hothers⟩⟩
    · exact List.inj_on_of_nodup_map hids hm hn hid
    -- the notice of the other one could only name what comes after it
    · exact absurd ((h.others m hm n.id).1 hothers).1 (not_before_of_before nodup hc.1)
  · rintro rfl
    exact ⟨hn, .inl ⟨rfl, hb⟩⟩

end Notified

/-- The walk over a selection of known ids reports the notices that are due. -/
theorem exists_notified (known : ∀ a ∈ selection, a < c.size) (nodup : selection.Nodup) :
    ∃ notices, c.Notified selection notices ∧
      (c.exclusivityComplaints selection).map c.complaintText = notices.map c.noticeText := by
  induction selection with
  | nil => exact ⟨[], .nil, rfl⟩
  | cons id later ih =>
    obtain ⟨hid, hlater⟩ := List.nodup_cons.1 nodup
    obtain ⟨hlt, hknown⟩ := List.forall_mem_cons.1 known
    obtain ⟨notices, hnotified, htexts⟩ := ih hknown hlater
    have he : c.get? id = some c.extensions[id] := List.getElem?_eq_getElem hlt
    rw [exclusivityComplaints, List.map_append, htexts]
    rcases exclusivityComplaint?_cases he hid with ⟨hcomplaint, hnone⟩ |
      ⟨others, hcomplaint, hne, hsub, hmem⟩
    · exact ⟨notices, hnotified.skip hid hnone, by rw [hcomplaint]; rfl⟩
    · refine ⟨⟨id, others⟩ :: notices, hnotified.add hid hne hsub hmem, ?_⟩
      rw [hcomplaint, Option.toList_some, List.map_singleton, complaintText_conflict he]
      rfl

/-- The check of exclusions reports the notices that are due, and no others: one for each member
that conflicts with a later one, in the order of selection. So each pair that conflicts is named
once, by the message of the extension that was selected first. -/
theorem checkExclusivities_notices {c : Catalog} {selection : List Nat}
    (known : ∀ a ∈ selection, a < c.size) (nodup : selection.Nodup) :
    ∃ notices, c.Notified selection notices ∧
      c.checkExclusivities selection = .ofErrors (notices.map c.noticeText) ∧
      ∀ a ∈ selection, ∀ b ∈ selection, a ≠ b → c.Conflict a b →
        ∃ n, notices.filter (fun n => decide (n.Joins a b)) = [n] ∧
          (n.id = a ∧ [a, b].Sublist selection ∨ n.id = b ∧ [b, a].Sublist selection) := by
  obtain ⟨notices, hnotified, htexts⟩ := exists_notified known nodup
  refine ⟨notices, hnotified, by rw [checkExclusivities, htexts], ?_⟩
  intro a ha b hb hab hc
  rcases before_or_before ha hb hab with hbefore | hbefore
  · obtain ⟨n, hn, hid⟩ := hnotified.exists_filter_joins nodup ⟨hbefore, hc⟩
    exact ⟨n, hn, .inl ⟨hid, hbefore⟩⟩
  · obtain ⟨n, hn, hid⟩ := hnotified.exists_filter_joins nodup ⟨hbefore, hc.symm⟩
    simp only [Notice.joins_comm _ b a] at hn
    exact ⟨n, hn, .inr ⟨hid, hbefore⟩⟩

/-- A selection against the order of the catalog. The first member conflicts with two others, and of
these pairs one is declared on both sides and one by the first member only. -/
theorem checkExclusivities_notices_backwards :
    let c : Catalog := ⟨[⟨0, "A", .library, [], [2]⟩, ⟨1, "B", .library, [], []⟩,
      ⟨2, "C", .library, [], [0, 3]⟩, ⟨3, "D", .library, [], []⟩]⟩
    (∀ a ∈ [2, 1, 3, 0], a < c.size) ∧ [2, 1, 3, 0].Nodup ∧
      c.checkExclusivities [2, 1, 3, 0] = .invalid ["C cannot be combined with D, A"] ∧
      ∃ notices, c.Notified [2, 1, 3, 0] notices ∧
        c.checkExclusivities [2, 1, 3, 0] = .ofErrors (notices.map c.noticeText) ∧
        ∃ n, notices.filter (fun n => decide (n.Joins 0 2)) = [n] ∧ n.id = 2 := by
  intro c
  have known : ∀ a ∈ [2, 1, 3, 0], a < c.size := by decide
  have nodup : [2, 1, 3, 0].Nodup := by decide
  have hreport : c.checkExclusivities [2, 1, 3, 0] = .invalid ["C cannot be combined with D, A"] := by
    decide +kernel
  have hc : c.Conflict 0 2 := .inl ⟨_, rfl, by decide⟩
  obtain ⟨notices, hnotified, hcheck, hpairs⟩ := checkExclusivities_notices known nodup
  obtain ⟨n, hn, ⟨-, hbefore⟩ | ⟨hid, -⟩⟩ := hpairs 0 (by decide) 2 (by decide) (by decide) hc
  · exact absurd hbefore (by decide)
  · exact ⟨known, nodup, hreport, notices, hnotified, hcheck, n, hn, hid⟩

end ProjectSetup.Catalog
