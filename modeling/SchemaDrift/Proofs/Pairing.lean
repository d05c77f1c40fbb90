import Mathlib.Data.List.Pairwise
import SchemaDrift.Proofs.Agreement

namespace SchemaDrift

namespace Constraint

variable {a b c : Constraint} {as bs : List Constraint}

def SameBody (a b : Constraint) : Prop :=
  a.rule = b.rule ∧ a.columns = b.columns ∧ a.modifiers = b.modifiers

theorem SameBody.symm (h : a.SameBody b) : b.SameBody a := ⟨h.1.symm, h.2.1.symm, h.2.2.symm⟩

theorem SameBody.trans (h : a.SameBody b) (h' : b.SameBody c) : a.SameBody c :=
  ⟨h.1.trans h'.1, h.2.1.trans h'.2.1, h.2.2.trans h'.2.2⟩

instance : Decidable (a.SameBody b) :=
  inferInstanceAs (Decidable (a.rule = b.rule ∧ a.columns = b.columns ∧ a.modifiers = b.modifiers))

theorem equivalent_iff : a.equivalent b = true ↔
    a.SameBody b ∧ (a.name = none ∨ b.name = none ∨ a.name = b.name) := by
  have hnames : namesAgree a.name b.name = true ↔
      a.name = none ∨ b.name = none ∨ a.name = b.name := by
    cases a.name <;> cases b.name <;> simp [namesAgree]
  simp only [equivalent, Bool.and_eq_true, hnames, beq_iff_eq, SameBody]
  tauto

theorem equivalent_symm : a.equivalent b = b.equivalent a := by
  rw [Bool.eq_iff_iff, equivalent_iff, equivalent_iff]
  constructor <;> rintro ⟨hbody, hnames⟩ <;> refine ⟨hbody.symm, ?_⟩ <;> tauto

def Rival (a b : Constraint) : Prop := a.SameBody b ∧ a.equivalent b = false

instance : Decidable (a.Rival b) :=
  inferInstanceAs (Decidable (a.SameBody b ∧ a.equivalent b = false))

theorem Rival.names (h : a.Rival b) : a.name ≠ none ∧ b.name ≠ none ∧ a.name ≠ b.name := by
  have hnot : ¬ a.equivalent b = true := by simp [h.2]
  rw [equivalent_iff] at hnot
  have hbody := h.1
  tauto

theorem Rival.symm (h : a.Rival b) : b.Rival a := ⟨h.1.symm, equivalent_symm ▸ h.2⟩

/-- No constraint is unnamed where constraints of the same body, one from each side, go by
different names. -/
def Clear (as bs : List Constraint) : Prop :=
  ∀ a ∈ as, ∀ b ∈ bs, a.Rival b → ∀ c ∈ as ++ bs, c.SameBody a → c.name ≠ none

instance : Decidable (Clear as bs) :=
  inferInstanceAs (Decidable (∀ a ∈ as, ∀ b ∈ bs, a.Rival b →
    ∀ c ∈ as ++ bs, c.SameBody a → c.name ≠ none))

theorem Clear.mono (h : Clear as bs) {as' bs' : List Constraint} (ha : as' ⊆ as) (hb : bs' ⊆ bs) :
    Clear as' bs' := fun a hma b hmb hr c hc =>
  h a (ha hma) b (hb hmb) hr c (List.append_subset.2
    ⟨List.subset_append_of_subset_left bs ha, List.subset_append_of_subset_right as hb⟩ hc)

theorem Clear.symm (h : Clear as bs) : Clear bs as := fun b hb a ha hr c hc hbody =>
  h a ha b hb hr.symm c (List.mem_append.2 (List.mem_append.1 hc).symm) (hbody.trans hr.1)

/-- In clear lists, an equivalence goes on over a third and a fourth constraint. -/
theorem Clear.equivalent_of_square (h : Clear as bs) {d : Constraint} (ha : a ∈ as) (hb : b ∈ bs)
    (hc : c ∈ as) (hd : d ∈ bs) (hab : a.equivalent b = true) (had : a.equivalent d = true)
    (hcb : c.equivalent b = true) : c.equivalent d = true := by
  obtain ⟨hbodyab, hnamesab⟩ := equivalent_iff.1 hab
  obtain ⟨hbodyad, hnamesad⟩ := equivalent_iff.1 had
  obtain ⟨hbodycb, hnamescb⟩ := equivalent_iff.1 hcb
  have hbodyac : a.SameBody c := hbodyab.trans hbodycb.symm
  by_contra hcd
  have hrival : c.Rival d := ⟨hbodyac.symm.trans hbodyad, by simpa using hcd⟩
  -- The two rivals would take the names of the other two, which are named as well.
  have hnameda := h c hc d hd hrival a (List.mem_append_left _ ha) hbodyac
  have hnamedb := h c hc d hd hrival b (List.mem_append_right _ hb) hbodycb.symm
  obtain ⟨hnamedc, hnamedd, hne⟩ := hrival.names
  have hsameab : a.name = b.name := by tauto
  have hsamead : a.name = d.name := by tauto
  have hsamecb : c.name = b.name := by tauto
  exact hne (hsamecb.trans (hsameab.symm.trans hsamead))

def Matched (ps : List (Constraint × Constraint)) : Prop := ∀ p ∈ ps, p.1.equivalent p.2 = true

variable {ps qs : List (Constraint × Constraint)}

theorem Matched.cons (hab : a.equivalent b = true) (h : Matched ps) : Matched ((a, b) :: ps) :=
  List.forall_mem_cons.2 ⟨hab, h⟩

theorem Matched.exists_cons (h : Matched ps) {p : Constraint × Constraint} (hp : p ∈ ps) :
    ∃ qs, ps.Perm (p :: qs) ∧ Matched qs :=
  ⟨ps.erase p, List.perm_cons_erase hp, fun q hq => h q (List.mem_of_mem_erase hq)⟩

theorem Matched.swap (h : Matched ps) : Matched (ps.map Prod.swap) := by
  intro p hp
  obtain ⟨q, hq, rfl⟩ := List.mem_map.1 hp
  exact equivalent_symm.trans (h q hq)

theorem paired_iff : Paired as bs ↔
    ∃ ps, Matched ps ∧ (ps.map Prod.fst).Perm as ∧ (ps.map Prod.snd).Perm bs := by
  constructor
  · rintro ⟨cs, hperm, hcs⟩
    obtain ⟨hlength, hzip⟩ := List.forall₂_iff_zip.1 hcs
    refine ⟨as.zip cs, fun p hp => hzip hp, ?_, ?_⟩
    · rw [List.map_fst_zip hlength.le]
    · rwa [List.map_snd_zip hlength.ge]
  · rintro ⟨ps, hps, hfst, hsnd⟩
    have hpairs : List.Forall₂ (fun a c => a.equivalent c = true) (ps.map Prod.fst)
        (ps.map Prod.snd) := by
      rw [List.forall₂_map_left_iff, List.forall₂_map_right_iff, List.forall₂_same]
      exact hps
    obtain ⟨cs, hcs, hperm⟩ := List.perm_comp_forall₂ hfst.symm hpairs
    exact ⟨cs, hperm.trans hsnd, hcs⟩

theorem Paired.refl (cs : List Constraint) : Paired cs cs :=
  ⟨cs, .refl cs, List.forall₂_same.2 (fun c _ => equivalent_refl c)⟩

theorem Paired.symm (h : Paired as bs) : Paired bs as := by
  obtain ⟨ps, hps, hfst, hsnd⟩ := paired_iff.1 h
  refine paired_iff.2 ⟨ps.map Prod.swap, hps.swap, ?_, ?_⟩
  · rwa [List.map_map]
  · rwa [List.map_map]

theorem Paired.perm (h : Paired as bs) {as' bs' : List Constraint} (ha : as'.Perm as)
    (hb : bs'.Perm bs) : Paired as' bs' := by
  obtain ⟨ps, hps, hfst, hsnd⟩ := paired_iff.1 h
  exact paired_iff.2 ⟨ps, hps, hfst.trans ha.symm, hsnd.trans hb.symm⟩

/-- Where no two constraints share a body, none competes with another. -/
theorem Paired.clear_of_distinct (h : Paired as bs)
    (hdistinct : as.Pairwise fun a b => ¬ a.SameBody b) : Clear as bs := by
  intro a ha b hb hr
  obtain ⟨ps, hps, hfst, hsnd⟩ := paired_iff.1 h
  obtain ⟨⟨c, b⟩, hcb, rfl⟩ := List.mem_map.1 (hsnd.mem_iff.2 hb)
  have hc : c ∈ as := hfst.mem_iff.1 (List.mem_map_of_mem hcb)
  have hbody : a.SameBody c := hr.1.trans (equivalent_iff.1 (hps _ hcb)).1.symm
  by_cases hac : a = c
  · exact absurd (hps _ hcb) (by simp [← hac, hr.2])
  · have : Std.Symm fun a b : Constraint => ¬ a.SameBody b :=
      ⟨fun _ _ hne hsame => hne hsame.symm⟩
    exact absurd hbody (hdistinct.forall ha hc hac)

/-- In clear lists, a constraint may take any that is equivalent to it: what would have taken that
one can take what it leaves. -/
theorem Paired.of_cons (h : Paired (a :: as) bs) (hclear : Clear (a :: as) bs)
    (hab : a.equivalent b = true) {rest : List Constraint} (hb : bs.Perm (b :: rest)) :
    Paired as rest := by
  obtain ⟨ps, hps, hfst, hsnd⟩ := paired_iff.1 h
  obtain ⟨⟨a, c⟩, hac, rfl⟩ := List.mem_map.1 (hfst.mem_iff.2 List.mem_cons_self)
  obtain ⟨qs, hqs, hmatched⟩ := hps.exists_cons hac
  have hqfst : (qs.map Prod.fst).Perm as := ((hqs.map Prod.fst).symm.trans hfst).cons_inv
  have hqsnd : (c :: qs.map Prod.snd).Perm (b :: rest) :=
    (hqs.map Prod.snd).symm.trans (hsnd.trans hb)
  by_cases hcb : c = b
  · subst hcb
    exact paired_iff.2 ⟨qs, hmatched, hqfst, hqsnd.cons_inv⟩
  · have hbmem : b ∈ qs.map Prod.snd :=
      (List.mem_cons.1 (hqsnd.mem_iff.2 List.mem_cons_self)).resolve_left (Ne.symm hcb)
    obtain ⟨⟨d, b⟩, hdb, rfl⟩ := List.mem_map.1 hbmem
    obtain ⟨rs, hrs, hmatchedrs⟩ := hmatched.exists_cons hdb
    have hdmem : d ∈ a :: as :=
      List.mem_cons_of_mem a (hqfst.mem_iff.1 (List.mem_map_of_mem hdb))
    have hcmem : c ∈ bs := hsnd.mem_iff.1 (List.mem_map_of_mem hac)
    have hdc : d.equivalent c = true := hclear.equivalent_of_square List.mem_cons_self
      (hb.mem_iff.2 List.mem_cons_self) hdmem hcmem hab (hps _ hac) (hmatched _ hdb)
    refine paired_iff.2 ⟨(d, c) :: rs, hmatchedrs.cons hdc, ?_, ?_⟩
    · exact (hrs.map Prod.fst).symm.trans hqfst
    · have hswap : (b :: c :: rs.map Prod.snd).Perm (b :: rest) :=
        (List.Perm.swap c b _).trans (((hrs.map Prod.snd).symm.cons c).trans hqsnd)
      exact hswap.cons_inv

def Stuck (as bs : List Constraint) : Prop :=
  ∃ ps a b, Matched ps ∧ a.equivalent b = false ∧ (a :: ps.map Prod.fst).Perm as ∧
    (b :: ps.map Prod.snd).Perm bs

theorem Stuck.symm (h : Stuck as bs) : Stuck bs as := by
  obtain ⟨ps, a, b, hps, hab, hfst, hsnd⟩ := h
  refine ⟨ps.map Prod.swap, b, a, hps.swap, equivalent_symm ▸ hab, ?_, ?_⟩
  · rwa [List.map_map]
  · rwa [List.map_map]

/-- Where an unnamed constraint shares its body with two that go by different names, it can take
what one of the others needs. -/
theorem Paired.stuck_of_unnamed (h : Paired as bs) (ha : a ∈ as) (hb : b ∈ bs) (hr : a.Rival b)
    (hc : c ∈ as) (hbody : c.SameBody a) (hname : c.name = none) : Stuck as bs := by
  obtain ⟨ps, hps, hfst, hsnd⟩ := paired_iff.1 h
  obtain ⟨⟨c, z⟩, hcz, rfl⟩ := List.mem_map.1 (hfst.mem_iff.2 hc)
  obtain ⟨⟨a, x⟩, hax, rfl⟩ := List.mem_map.1 (hfst.mem_iff.2 ha)
  obtain ⟨⟨y, b⟩, hyb, rfl⟩ := List.mem_map.1 (hsnd.mem_iff.2 hb)
  dsimp only at hr hbody hname ha hb hc
  have hfree {d : Constraint} (hd : a.SameBody d) : c.equivalent d = true :=
    equivalent_iff.2 ⟨hbody.trans hd, .inl hname⟩
  have hbodyax := (equivalent_iff.1 (hps _ hax)).1
  have hne : (a, x) ≠ (c, z) := by
    rintro heq
    exact hr.names.1 ((Prod.mk.inj heq).1 ▸ hname)
  obtain ⟨qs, hqs, hmatched⟩ := hps.exists_cons hcz
  have haxq : (a, x) ∈ qs := (List.mem_cons.1 (hqs.mem_iff.1 hax)).resolve_left hne
  obtain ⟨rs, hrs, hmatchedrs⟩ := hmatched.exists_cons haxq
  have hperm : ps.Perm ((c, z) :: (a, x) :: rs) := hqs.trans (hrs.cons _)
  cases haz : a.equivalent z with
  | false =>
      -- The unnamed constraint takes the partner of `a`, and its own partner is of no use to `a`.
      refine ⟨(c, x) :: rs, a, z, hmatchedrs.cons (hfree hbodyax), haz, ?_, ?_⟩
      · exact (List.Perm.swap c a _).trans ((hperm.map Prod.fst).symm.trans hfst)
      · exact (hperm.map Prod.snd).symm.trans hsnd
  | true =>
      have hneyc : (y, b) ≠ (c, z) := by
        rintro heq
        rw [← (Prod.mk.inj heq).2, hr.2] at haz
        cases haz
      have hneya : (y, b) ≠ (a, x) := by
        rintro heq
        have hyb := hps _ hyb
        rw [(Prod.mk.inj heq).1, hr.2] at hyb
        cases hyb
      have hybr : (y, b) ∈ rs := (List.mem_cons.1 (hrs.mem_iff.1
        ((List.mem_cons.1 (hqs.mem_iff.1 hyb)).resolve_left hneyc))).resolve_left hneya
      obtain ⟨us, hus, hmatchedus⟩ := hmatchedrs.exists_cons hybr
      have hperm : ps.Perm ((c, z) :: (a, x) :: (y, b) :: us) :=
        hperm.trans ((hus.cons _).cons _)
      cases hyz : y.equivalent z with
      | true =>
          refine ⟨(c, x) :: (y, z) :: us, a, b, (hmatchedus.cons hyz).cons (hfree hbodyax), hr.2,
            ?_, ?_⟩
          · exact (List.Perm.swap c a _).trans ((hperm.map Prod.fst).symm.trans hfst)
          · exact ((List.reverse_perm [z, x, b]).append_right _).trans
              ((hperm.map Prod.snd).symm.trans hsnd)
      | false =>
          refine ⟨(c, b) :: (a, x) :: us, y, z, (hmatchedus.cons (hps _ hax)).cons (hfree hr.1),
            hyz, ?_, ?_⟩
          · exact (List.Perm.swap c y _).trans
              (((List.Perm.swap a y _).cons c).trans ((hperm.map Prod.fst).symm.trans hfst))
          · exact ((List.Perm.swap x b _).cons z).trans ((hperm.map Prod.snd).symm.trans hsnd)

/-- Whatever order of two lists that can be paired leaves nothing over only if they are clear. -/
theorem Paired.clear_or_stuck (h : Paired as bs) : Clear as bs ∨ Stuck as bs := by
  by_contra hboth
  obtain ⟨hclear, hstuck⟩ := not_or.1 hboth
  refine hclear (fun a ha b hb hr c hc hbody hname => hstuck ?_)
  rcases List.mem_append.1 hc with hc | hc
  · exact h.stuck_of_unnamed ha hb hr hc hbody hname
  · exact (h.symm.stuck_of_unnamed hb ha hr.symm hc (hbody.trans hr.1) hname).symm

end Constraint

namespace Details

open Constraint

variable {as bs : List Constraint}

theorem unpaired_of_paired (h : Paired as bs) (hclear : Clear as bs) :
    unpaired as bs = ([], []) := by
  induction as generalizing bs with
  | nil =>
      obtain ⟨cs, hperm, hcs⟩ := h
      cases hcs
      rw [List.nil_perm.1 hperm]
      rfl
  | cons a as ih =>
      obtain ⟨ps, hps, hfst, hsnd⟩ := paired_iff.1 h
      obtain ⟨⟨a, c⟩, hac, rfl⟩ := List.mem_map.1 (hfst.mem_iff.2 List.mem_cons_self)
      have hany : bs.any a.equivalent = true :=
        List.any_eq_true.2 ⟨c, hsnd.mem_iff.1 (List.mem_map_of_mem hac), hps _ hac⟩
      obtain ⟨d, hd, had⟩ := List.any_eq_true.1 hany
      obtain ⟨b, before, after, -, hab, rfl, herase⟩ := List.exists_of_eraseP hd had
      rw [unpaired, if_pos hany, herase]
      refine ih (h.of_cons hclear hab List.perm_middle) (hclear.mono ?_ ?_)
      · exact List.subset_cons_self _ _
      · exact ((List.sublist_cons_self b after).append_left before).subset

theorem unpaired_append {ps : List (Constraint × Constraint)} (h : Matched ps)
    (as bs : List Constraint) :
    unpaired (ps.map Prod.fst ++ as) (ps.map Prod.snd ++ bs) = unpaired as bs := by
  induction ps with
  | nil => rfl
  | cons p ps ih =>
      obtain ⟨hp, hps⟩ := List.forall_mem_cons.1 h
      rw [List.map_cons, List.map_cons, List.cons_append, List.cons_append, unpaired]
      simp only [List.any_cons, hp, Bool.true_or, if_true, List.eraseP_cons_of_pos]
      exact ih hps

theorem exists_order_of_stuck {as bs : List Constraint} (h : Stuck as bs) :
    ∃ cs ds, cs.Perm as ∧ ds.Perm bs ∧ unpaired cs ds ≠ ([], []) := by
  obtain ⟨ps, c, d, hps, hcd, hfst, hsnd⟩ := h
  refine ⟨_, _, (List.perm_append_singleton c _).trans hfst,
    (List.perm_append_singleton d _).trans hsnd, ?_⟩
  rw [unpaired_append hps [c] [d]]
  simp [unpaired, hcd]

end Details

end SchemaDrift
