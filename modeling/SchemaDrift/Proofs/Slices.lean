import SchemaDrift.Proofs.ByteCanonical
import SchemaDrift.Proofs.ReadableNames

namespace SchemaDrift

open Text

namespace Identifier

variable {d : Dialect} {raw s : List Char}

theorem exists_ascii_of_byteSize (h : byteSize s = 1) : ∃ c, s = [c] ∧ isAscii c = true := by
  cases s with
  | nil => cases h
  | cons c s =>
      have hrest : s = [] := by
        cases s with
        | nil => rfl
        | cons e s =>
            have hc := byteSize_pos (List.cons_ne_nil c [])
            have hs := byteSize_pos (List.cons_ne_nil e s)
            have hsum : byteSize (c :: e :: s) = byteSize [c] + byteSize (e :: s) :=
              byteSize_append [c] (e :: s)
            omega
      subst hrest
      refine ⟨c, rfl, decide_eq_true (Nat.lt_of_not_le fun hwide => ?_)⟩
      obtain ⟨b, bs, hbytes, -, hne, -⟩ := exists_lead hwide
      have hsize := length_charBytes c
      have hpos := List.length_pos_iff.2 hne
      have hone : c.utf8Size = 1 := h
      rw [hbytes, List.length_cons, hone] at hsize
      omega

/-- The quotes of a name are its first byte and its last, so that the slice within them cuts a
character where the name begins or ends with a longer one. -/
theorem isSome_slice?_iff (h : 2 ≤ byteSize s) :
    (slice? s 1 (byteSize s - 1)).isSome = true ↔ endsAscii s = true := by
  constructor
  · intro hsome
    obtain ⟨run, hrun⟩ := Option.isSome_iff_exists.1 hsome
    obtain ⟨u, v, hs, hu, hstop⟩ := slice?_eq_some_iff.1 hrun
    have hsize := congrArg byteSize hs
    rw [byteSize_append, byteSize_append] at hsize
    obtain ⟨c, rfl, hc⟩ := exists_ascii_of_byteSize hu
    obtain ⟨e, rfl, he⟩ := exists_ascii_of_byteSize (s := v) (by omega)
    rw [hs, endsAscii, ← List.append_assoc, List.getLast?_concat, List.singleton_append,
      List.cons_append, List.head?_cons]
    exact Bool.and_eq_true_iff.2 ⟨hc, he⟩
  · intro hends
    obtain ⟨hfirst, hlast⟩ := Token.isAscii_of_endsAscii hends
    cases s with
    | nil => exact absurd h (by decide)
    | cons c s =>
        have hc : c.utf8Size = 1 := utf8Size_of_ascii (of_decide_eq_true (hfirst c rfl))
        rcases List.eq_nil_or_concat s with rfl | ⟨mid, e, rfl⟩
        · rw [byteSize, byteSize_nil, hc] at h
          omega
        · rw [List.concat_eq_append] at hlast h ⊢
          have he : e.utf8Size = 1 := by
            refine utf8Size_of_ascii (of_decide_eq_true (hlast e ?_))
            rw [← List.cons_append, List.getLast?_concat]
          have hsize : byteSize (c :: (mid ++ [e])) = 1 + byteSize mid + 1 := by
            rw [byteSize, byteSize_append, hc, byteSize, he, byteSize_nil, Nat.add_assoc]
          have hslice : slice? (c :: (mid ++ [e])) 1 (byteSize (c :: (mid ++ [e])) - 1) =
              some mid := by
            rw [hsize, Nat.add_sub_cancel]
            exact slice?_eq_some_iff.2 ⟨[c], [e], rfl, hc, rfl⟩
          rw [hslice]
          rfl

/-- A name cannot be read where the slice within its quotes fails, and only there. -/
theorem exists_error_iff : (∃ f, read d raw = .error f) ↔
    2 ≤ byteSize (trim raw) ∧ slice? (trim raw) 1 (byteSize (trim raw) - 1) = none := by
  rw [read]
  by_cases hshort : byteSize (trim raw) < 2
  · rw [if_pos hshort]
    exact iff_of_false (fun h => by obtain ⟨f, hf⟩ := h; cases hf) fun h => by omega
  · have hlong : 2 ≤ byteSize (trim raw) := Nat.le_of_not_lt hshort
    have hslice := isSome_slice?_iff hlong
    rw [if_neg hshort, and_iff_right hlong]
    cases hends : endsAscii (trim raw) with
    | true =>
        rw [hends, eq_self, iff_true] at hslice
        refine iff_of_false (fun h => ?_) fun h => ?_
        · obtain ⟨f, hf⟩ := h
          cases hf
        · rw [h] at hslice
          cases hslice
    | false =>
        refine iff_of_true ⟨_, rfl⟩ (Option.not_isSome_iff_eq_none.1 fun h => ?_)
        rw [hslice.1 h] at hends
        cases hends

end Identifier

def NamesUnsplit (d : Dialect) (s : List Char) : Prop := ∀ t ∈ Token.lex d s, t.splits = false

instance (d : Dialect) (s : List Char) : Decidable (NamesUnsplit d s) :=
  inferInstanceAs (Decidable (∀ t ∈ Token.lex d s, t.splits = false))

theorem not_splits {d : Dialect} {s : List Char} (h : NamesUnsplit d s) (f : Fault) :
    ¬ Splits d s f := by
  rintro ⟨t, ht, hsplits, -⟩
  rw [h t ht] at hsplits
  cases hsplits

theorem ok_of_namesUnsplit {d : Dialect} {s : List Char} {α : Type} {r : Except Fault α}
    (hr : OnlyFaults (Splits d s) r) (h : NamesUnsplit d s) : ∃ a, r = .ok a :=
  hr.exists_ok (not_splits h)

theorem ofScripts_ok {d : Dialect} {scripts : List Script}
    (h : ∀ s ∈ scripts, ∀ item ∈ Statement.split d s.sql, NamesUnsplit d item.text.toList) :
    ∃ m, Model.ofScripts d scripts = .ok m := by
  refine (Model.onlyFaults_ofScripts d scripts).exists_ok fun f hf => ?_
  obtain ⟨s, hs, item, hitem, hsplits⟩ := hf
  exact not_splits (h s hs item hitem) f hsplits

/-- Splitting a script, taking a text apart, writing it in canonical form and reading its tokens
slice within range and between characters, and count no parenthesis or comment below zero. What
goes wrong in reading a statement, or in keeping it as text, is that a name in it cannot be read,
and that is a name of two bytes or more that begins or ends with a character beyond ASCII: the
slice within its quotes is the only one that fails. Without such names scripts come to a schema. -/
theorem no_slice_fails (d : Dialect) :
    (∀ script : String, Bytes.split? d script.toList = some (Statement.split d script)) ∧
    (∀ text : List Char,
      (∃ es, Bytes.lex? d text = some es ∧ es.map (fun e => slice? text e.start e.stop) =
        (Token.lex d text).map (fun t => some t.text)) ∧
      Bytes.canonical? d text = some (Token.canonical d text) ∧
      Bytes.canonicalExpr? d text = some (Token.canonicalExpr d text) ∧
      ∀ c, Bytes.Cursor.Reachable d text c → ∃ us ts, c.Agrees d text us ts) ∧
    (∀ script, ∀ item ∈ Statement.split d script,
      OnlyFaults (Splits d item.text.toList) (Object.ofStatement? d item.text) ∧
      OnlyFaults (Splits d item.text.toList) (Grammar.rawStatement d item.text.toList) ∧
      (NamesUnsplit d item.text.toList → (∃ o, Object.ofStatement? d item.text = .ok o) ∧
        ∃ raw, Grammar.rawStatement d item.text.toList = .ok raw)) ∧
    (∀ scripts : List Script,
      (∀ s ∈ scripts, ∀ item ∈ Statement.split d s.sql, NamesUnsplit d item.text.toList) →
        ∃ m, Model.ofScripts d scripts = .ok m) ∧
    ∀ raw, (∃ f, Identifier.read d raw = .error f) ↔
      2 ≤ byteSize (trim raw) ∧ slice? (trim raw) 1 (byteSize (trim raw) - 1) = none := by
  refine ⟨Bytes.split?_eq d, fun text => ⟨?_, Bytes.canonical?_eq d text,
    Bytes.canonicalExpr?_eq d text, fun _ => Bytes.Cursor.Reachable.agrees⟩,
    fun script item hitem => ?_,
    fun scripts => ofScripts_ok, fun raw => Identifier.exists_error_iff⟩
  · exact ⟨_, Bytes.lex?_eq d text, (Bytes.Along.of_lex? d (Bytes.lex?_eq d text)).slices⟩
  · have htrimmed := Statement.isTrimmed_of_mem_split hitem
    have hread := Object.onlyFaults_ofStatement? (d := d) htrimmed.last
    have hraw := onlyFaults_rawStatement (d := d) htrimmed.last
    exact ⟨hread, hraw, fun h => ⟨ok_of_namesUnsplit hread h, ok_of_namesUnsplit hraw h⟩⟩

def accented : Script :=
  ⟨"menu.sql", "-- le menü\nCREATE TABLE cafés (naïve text DEFAULT 'thé', \"crème\" int);\nDROP 'é"⟩

def tornName : Script := ⟨"torn.sql", "CREATE TABLE café (a int);"⟩

theorem no_slice_fails_accented :
    (∃ m, Model.ofScripts .postgres [accented] = .ok m) ∧
    ∀ item ∈ Statement.split .postgres tornName.sql,
      ∃ f, Object.ofStatement? .postgres item.text = .error f ∧
        Splits .postgres item.text.toList f := by
  obtain ⟨-, -, hitems, hscripts, -⟩ := no_slice_fails .postgres
  have hfault : (Statement.split .postgres tornName.sql).map
      (fun item => Object.ofStatement? .postgres item.text) =
        [.error (.splitsCharacter "café")] := by
    decide +kernel
  refine ⟨hscripts [accented] ?_, fun item hitem => ?_⟩
  · decide +kernel
  · have hmem := List.mem_map_of_mem (f := fun item : Statement.Item =>
      Object.ofStatement? .postgres item.text) hitem
    rw [hfault, List.mem_singleton] at hmem
    exact ⟨_, hmem, (hitems _ item hitem).1 _ hmem⟩

end SchemaDrift
