import SchemaDrift.Proofs.Pairing

namespace SchemaDrift

namespace Details

open Constraint

def onConstraint (detail : String) : Bool :=
  "constraint dropped: ".toList.isPrefixOf detail.toList ||
    "constraint added: ".toList.isPrefixOf detail.toList

theorem onConstraint_constraints {as bs : List Constraint} :
    ∀ d ∈ constraints as bs, onConstraint d = true := by
  have hstart {p : String} (t : String) : p.toList.isPrefixOf (p ++ t).toList = true := by
    rw [String.toList_append, List.isPrefixOf_iff_prefix]
    exact List.prefix_append _ _
  intro d hd
  rw [constraints, List.mem_append, List.mem_map, List.mem_map] at hd
  obtain ⟨c, -, rfl⟩ | ⟨c, -, rfl⟩ := hd
  · rw [onConstraint, hstart, Bool.true_or]
  · rw [onConstraint, hstart, Bool.or_true]

def Apart (s : String) : Prop := 3 ≤ s.toList.length ∧ s.toList.take 3 ≠ "con".toList

instance (s : String) : Decidable (Apart s) :=
  inferInstanceAs (Decidable (3 ≤ s.toList.length ∧ s.toList.take 3 ≠ "con".toList))

theorem Apart.append {s : String} (h : Apart s) (t : String) : Apart (s ++ t) := by
  obtain ⟨hlength, htake⟩ := h
  rw [Apart, String.toList_append, List.length_append]
  refine ⟨by omega, ?_⟩
  rwa [List.take_append_of_le_length hlength]

theorem Apart.onConstraint {s : String} (h : Apart s) : onConstraint s = false := by
  have hnot {p : List Char} (hp : p.take 3 = "con".toList) (hl : 3 ≤ p.length) :
      p.isPrefixOf s.toList = false := by
    rw [← Bool.not_eq_true, List.isPrefixOf_iff_prefix]
    rintro ⟨t, ht⟩
    refine h.2 ?_
    rw [← ht, List.take_append_of_le_length hl, hp]
  rw [Details.onConstraint, hnot (by decide) (by decide), hnot (by decide) (by decide)]
  rfl

theorem Apart.fromTo {what : String} (h : Apart what) (before after : String) :
    Apart (fromTo what before after) :=
  (((h.append _).append _).append _).append _

theorem Apart.of_mem_ite {p : Prop} [Decidable p] {s d : String} (h : Apart s)
    (hd : d ∈ if p then [] else [s]) : Apart d := by
  split at hd
  · cases hd
  · rwa [List.mem_singleton.1 hd]

theorem apart_changed {α : Type} [DecidableEq α] {a b : α} {detail : α → α → String}
    (h : ∀ s t, Apart (detail s t)) : ∀ d ∈ changed a b detail, Apart d :=
  fun _ hd => (h a b).of_mem_ite hd

theorem apart_column {a b : Column} : ∀ d ∈ column a b, Apart d := by
  have hcolumn (s : String) : Apart ("column " ++ a.name ++ " " ++ s) :=
    (((by decide : Apart "column ").append _).append _).append _
  intro d hd
  simp only [column, List.mem_append, or_assoc] at hd
  rcases hd with htype | hnullable | hdefault | hgeneration | hattributes
  · exact ((hcolumn _).fromTo _ _).of_mem_ite htype
  · exact apart_changed (fun _ _ => hcolumn _) d hnullable
  · exact apart_changed (fun _ _ => (hcolumn _).fromTo _ _) d hdefault
  · exact apart_changed (fun _ _ => (hcolumn _).fromTo _ _) d hgeneration
  · exact apart_changed (fun _ _ => (hcolumn _).fromTo _ _) d hattributes

theorem apart_columns {detectRenames : Bool} {a b : List Column} :
    ∀ d ∈ columns detectRenames a b, Apart d := by
  intro d hd
  simp only [columns, List.mem_append, List.mem_map, List.mem_flatMap, or_assoc] at hd
  rcases hd with ⟨r, -, rfl⟩ | ⟨c, -, rfl⟩ | ⟨c, -, rfl⟩ | ⟨c, -, hkept⟩ | horder
  · exact (((by decide : Apart "column ").append _).append _).append _
  · exact (by decide : Apart "column dropped: ").append _
  · exact (by decide : Apart "column added: ").append _
  · split at hkept
    · exact apart_column d hkept
    · cases hkept
  · exact apart_changed (fun _ _ => (by decide : Apart "column order").fromTo _ _) d horder

theorem apart_indexes {a b : List Index} : ∀ d ∈ indexes a b, Apart d := by
  intro d hd
  rw [indexes, List.mem_append, List.mem_flatMap, List.mem_map] at hd
  obtain ⟨i, -, hkept⟩ | ⟨i, -, rfl⟩ := hd
  · split at hkept
    · rw [List.mem_singleton.1 hkept]
      exact (by decide : Apart "index dropped: ").append _
    · obtain ⟨s, -, rfl⟩ := List.mem_map.1 hkept
      exact (((by decide : Apart "index ").append _).append _).append _
  · exact (by decide : Apart "index added: ").append _

theorem apart_storage {a b : Storage} : ∀ d ∈ a.changes b, Apart d := by
  have hdescribe {label : String} (h : Apart label) (s t : Option String) :
      Apart (Storage.describe label s t) := (((h.append _).append _).append _).append _
  have hchange {label : String} (h : Apart label) {s t : Option String} :
      ∀ d ∈ Storage.change label s t, Apart d := apart_changed (hdescribe h)
  intro d hd
  simp only [Storage.changes, List.mem_append, or_assoc] at hd
  rcases hd with h | h | h | h | h | h | h | h
  iterate 7
    exact hchange (by decide) d h
  exact (hdescribe (by decide) _ _).of_mem_ite h

theorem apart_versioning {a b : Versioning} : ∀ d ∈ versioning a b, Apart d := by
  intro d hd
  rw [versioning, List.mem_append] at hd
  rcases hd with hperiod | hversioned
  · refine apart_changed ?_ d hperiod
    exact fun _ _ => (by decide : Apart "system-time period").fromTo _ _
  · refine apart_changed ?_ d hversioned
    intro _ on
    cases on
    · exact (by decide : Apart "system versioning disabled")
    · exact (by decide : Apart "system versioning enabled")

theorem apart_options {a b : Options} : ∀ d ∈ options a b, Apart d := by
  intro d hd
  rw [options, List.mem_append, List.mem_flatMap, List.mem_flatMap] at hd
  have hoption (s : String) : Apart ("option " ++ s) := (by decide : Apart "option ").append _
  obtain ⟨e, -, hkept⟩ | ⟨e, -, hadded⟩ := hd
  · split at hkept
    · rw [List.mem_singleton.1 hkept]
      exact (hoption _).append _
    · exact apart_changed (fun _ _ => (hoption _).fromTo _ _) d hkept
  · exact (((hoption _).append _).append _).of_mem_ite hadded

variable {detectRenames : Bool} {a b : Table}

theorem filter_onConstraint :
    (table detectRenames a b).filter onConstraint = constraints a.constraints b.constraints := by
  have hnone {ds : List String} (h : ∀ d ∈ ds, Apart d) : ds.filter onConstraint = [] := by
    rw [List.filter_eq_nil_iff]
    intro d hd
    rw [(h d hd).onConstraint]
    decide
  simp only [table, List.filter_append, hnone apart_columns, hnone apart_indexes,
    hnone apart_storage, hnone apart_versioning, hnone apart_options, List.nil_append,
    List.append_nil, List.filter_eq_self.2 onConstraint_constraints]

def SameConstraints (detectRenames : Bool) (a b : Table) : Prop :=
  ∀ d ∈ table detectRenames a b, onConstraint d = false

instance : Decidable (SameConstraints detectRenames a b) :=
  inferInstanceAs (Decidable (∀ d ∈ table detectRenames a b, onConstraint d = false))

theorem sameConstraints_iff : SameConstraints detectRenames a b ↔
    unpaired a.constraints b.constraints = ([], []) := by
  have hfilter : SameConstraints detectRenames a b ↔
      (table detectRenames a b).filter onConstraint = [] := by
    simp [SameConstraints, List.filter_eq_nil_iff]
  simp [hfilter, filter_onConstraint, constraints, Prod.ext_iff]

/-- The order of constraints does not count as long as no unnamed one can take what a named one
needs, and this is exact. -/
theorem constraints_unordered (detectRenames : Bool) (a b : Table) :
    (SameConstraints detectRenames a b → Paired a.constraints b.constraints) ∧
    (Paired a.constraints b.constraints → Clear a.constraints b.constraints →
      SameConstraints detectRenames a b) ∧
    (Paired a.constraints b.constraints →
      ((∀ as bs, as.Perm a.constraints → bs.Perm b.constraints →
        SameConstraints detectRenames { a with constraints := as } { b with constraints := bs }) ↔
      Clear a.constraints b.constraints)) ∧
    ((∀ as bs, as.Perm a.constraints → bs.Perm a.constraints →
        SameConstraints detectRenames { a with constraints := as } { a with constraints := bs }) ↔
      Clear a.constraints a.constraints) := by
  have hunordered (a b : Table) (h : Paired a.constraints b.constraints) :
      (∀ as bs, as.Perm a.constraints → bs.Perm b.constraints →
        SameConstraints detectRenames { a with constraints := as } { b with constraints := bs }) ↔
      Clear a.constraints b.constraints := by
    simp only [sameConstraints_iff]
    constructor
    · intro hall
      refine h.clear_or_stuck.resolve_right (fun hstuck => ?_)
      obtain ⟨as, bs, has, hbs, hleft⟩ := exists_order_of_stuck hstuck
      exact hleft (hall as bs has hbs)
    · intro hclear as bs has hbs
      exact unpaired_of_paired (h.perm has hbs) (hclear.mono has.subset hbs.subset)
  refine ⟨fun h => paired_of_unpaired (sameConstraints_iff.1 h), fun h hclear => ?_,
    hunordered a b, hunordered a a (Paired.refl _)⟩
  exact sameConstraints_iff.2 (unpaired_of_paired h hclear)

def key (name : Option String) (column : String) : Constraint := ⟨name, .unique, [column], []⟩

def keyedNotes (keys : List Constraint) : Table :=
  { Table.new (.unqualified "notes") with
    columns := [⟨"a", ⟨.integer, [], "INT"⟩, true, none, .plain, 1, []⟩,
      ⟨"b", ⟨.integer, [], "INT"⟩, true, none, .plain, 2, []⟩]
    constraints := keys }

def writtenKeys : List Constraint := [key (some "p") "a", key none "b", key (some "q") "a"]

def reportedKeys : List Constraint :=
  [key (some "q") "a", key (some "r") "b", key (some "p") "a"]

theorem constraints_unordered_keyedNotes :
    SameConstraints true (keyedNotes writtenKeys) (keyedNotes reportedKeys) ∧
    Paired writtenKeys reportedKeys ∧
    (∀ as bs, as.Perm writtenKeys → bs.Perm reportedKeys →
      SameConstraints true (keyedNotes as) (keyedNotes bs)) ∧
    ∀ as bs, as.Perm writtenKeys → bs.Perm writtenKeys →
      SameConstraints true (keyedNotes as) (keyedNotes bs) := by
  obtain ⟨hback, hsame, horder, hself⟩ :=
    constraints_unordered true (keyedNotes writtenKeys) (keyedNotes reportedKeys)
  have hpaired : Paired writtenKeys reportedKeys :=
    ⟨[key (some "p") "a", key (some "r") "b", key (some "q") "a"], by decide,
      .cons rfl (.cons rfl (.cons rfl .nil))⟩
  have hnotes := hsame hpaired (by decide)
  exact ⟨hnotes, hback hnotes, (horder hpaired).2 (by decide), hself.2 (by decide)⟩

def spareKeys : List Constraint := [key (some "p") "a", key none "a", key (some "q") "a"]

/-- The unnamed constraint takes the place of a named one, which then finds only the other name. -/
theorem constraint_order_counts :
    [key none "a", key (some "q") "a", key (some "p") "a"].Perm spareKeys ∧
    Paired spareKeys [key none "a", key (some "q") "a", key (some "p") "a"] ∧
    table true (keyedNotes spareKeys)
        (keyedNotes [key none "a", key (some "q") "a", key (some "p") "a"]) =
      ["constraint dropped: CONSTRAINT q UNIQUE (a)", "constraint added: CONSTRAINT p UNIQUE (a)"] ∧
    ¬ SameConstraints true (keyedNotes spareKeys)
        (keyedNotes [key none "a", key (some "q") "a", key (some "p") "a"]) := by
  have hperm : [key none "a", key (some "q") "a", key (some "p") "a"].Perm spareKeys := by decide
  have hpaired := (Paired.refl spareKeys).perm (.refl _) hperm
  exact ⟨hperm, hpaired, by decide +kernel, by decide +kernel⟩

end Details

end SchemaDrift
