import SchemaDrift.Proofs.Concatenation
import SchemaDrift.Proofs.Occurrences
import SchemaDrift.Proofs.Refolding
import SchemaDrift.Proofs.Verbs

namespace SchemaDrift

open Reader Grammar

variable {d : Dialect}

namespace Statement

def alters (d : Dialect) (s : Statement) : Bool :=
  upperWord? (Token.lex d s.text.toList) == some "ALTER"

def Item.alteration? (d : Dialect) : Item → Option String
  | .ok s => if s.alters d then some s.text else none
  | .error _ => none

end Statement

namespace Finding

def kept? : Definition ⊕ RawStatement → Option RawStatement
  | .inl (.object (.raw raw)) => some raw
  | .inl _ => none
  | .inr raw => some raw

def alters : Definition ⊕ RawStatement → Bool
  | .inl (.change _ _ _) => true
  | .inl (.object (.raw raw)) => raw.verb == "ALTER"
  | _ => false

def Read (d : Dialect) (said : Definition ⊕ RawStatement) : Prop :=
  ∀ raw, kept? said = some raw → ∃ s, rawStatement d s = .ok raw

end Finding

namespace Grammar

/-- What is understood is not kept as text. -/
theorem yields_create (d : Dialect) :
    Yields (fun o => ∀ raw, o ≠ .raw raw) (create (Clauses.ofDialect d)) := by
  have hread {α : Type} {p : Reader α} {f : α → Object} (hf : ∀ a raw, f a ≠ .raw raw) :
      Yields (fun o => ∀ raw, o ≠ .raw raw) (p >>= fun a => pure (f a)) :=
    .after fun a => .pure (hf a)
  have hform : Yields (fun o => ∀ p ∈ o, ∀ raw, p ≠ Object.raw raw)
      (attempt (Clauses.ofDialect d).createForm) := by
    intro d' ts rest o h p hp raw
    cases hp
    rintro rfl
    rcases Clauses.yields_createForm d _ _ _ _ (attempt_eq_some.1 h) with hkind | hkind
    · cases hkind
    · cases hkind
  refine .after fun _ => .after fun _ => hform.bind fun o ho => ?_
  cases o with
  | some o => exact .pure (ho o rfl)
  | none =>
      refine .after fun o => .after fun kind => ?_
      split
      case h_8 => exact .fail
      all_goals exact hread fun a raw h => nomatch h

end Grammar

theorem Grammar.verb_of_rawStatement {s : List Char} {raw : RawStatement}
    (h : rawStatement d s = .ok raw) :
    raw.verb = "ALTER" ↔ upperWord? (Token.lex d s) = some "ALTER" := by
  obtain ⟨label, -, rfl, -⟩ := rawStatement_eq_ok h
  cases upperWord? (Token.lex d s) with
  | none =>
      refine iff_of_false (fun h => ?_) (fun h => ?_)
      · exact absurd (show "" = "ALTER" from h) (by decide)
      · cases h
  | some w => exact ⟨congrArg some, Option.some.inj⟩

namespace Finding

variable {s : String} {o : Object} {raw : RawStatement}

theorem read_object (ho : ∀ raw, o ≠ .raw raw) :
    Read d (.inl (.object o)) ∧ alters (.inl (.object o)) = false := by
  cases o with
  | raw raw => exact absurd rfl (ho raw)
  | _ =>
      refine ⟨fun raw h => ?_, rfl⟩
      cases h

theorem read_raw (h : rawStatement d s.toList = .ok raw) :
    Read d (.inl (.object (.raw raw))) ∧ (alters (.inl (.object (.raw raw))) = true ↔
      upperWord? (Token.lex d s.toList) = some "ALTER") := by
  refine ⟨fun raw' h' => ?_, ?_⟩
  · cases h'
    exact ⟨_, h⟩
  · rw [← verb_of_rawStatement h]
    exact beq_iff_eq

/-- What a statement defines is said by an `ALTER` if the statement is one. -/
theorem alters_of_ofStatement? {found : Definition}
    (h : Definition.ofStatement? d s = .ok (some found)) :
    Read d (.inl found) ∧
      (alters (.inl found) = true ↔ upperWord? (Token.lex d s.toList) = some "ALTER") := by
  have hkept (h : (do return some (.object (.raw (← rawStatement d s.toList)))) =
      (.ok (some found) : Except Fault (Option Definition))) : Read d (.inl found) ∧
        (alters (.inl found) = true ↔ upperWord? (Token.lex d s.toList) = some "ALTER") := by
    obtain ⟨raw, hraw, h⟩ := Outcome.bind_eq_ok.1 h
    cases h
    exact read_raw hraw
  unfold Definition.ofStatement? Definition.ofChars? at h
  simp only at h
  split at h
  · next hword =>
      obtain ⟨created, hrun, h⟩ := Outcome.bind_eq_ok.1 h
      cases created with
      | none => exact hkept h
      | some o =>
          cases h
          obtain ⟨⟨read, rest⟩, hread, rfl⟩ := Outcome.exists_of_map hrun
          obtain ⟨_, ts, -, hread⟩ := bind_eq_some.1 hread
          obtain ⟨hobject, hnot⟩ := read_object (d := d) (yields_create d _ _ _ _ hread)
          rw [hnot, hword]
          exact ⟨hobject, by decide⟩
  · next hword =>
      obtain ⟨raw, hraw, h⟩ := Outcome.bind_eq_ok.1 h
      obtain ⟨changes, -, h⟩ := Outcome.bind_eq_ok.1 h
      cases changes with
      | none =>
          cases h
          exact read_raw hraw
      | some changes =>
          cases h
          refine ⟨fun raw' h' => ?_, fun _ => hword, fun _ => rfl⟩
          cases h'
  · exact hkept h
  · exact hkept h
  · cases h

theorem read_reading {item : Statement.Item} {found : Option (Definition ⊕ RawStatement)}
    (h : reading d item = .ok found) :
    (∀ said ∈ found, Read d said) ∧
      found.toList.filter alters = if (item.alteration? d).isSome then found.toList else [] := by
  cases item with
  | ok s =>
      obtain ⟨definition, hdefinition, rfl⟩ := Outcome.exists_of_map h
      cases definition with
      | none =>
          refine ⟨fun said hsaid => ?_, (ite_self []).symm⟩
          cases hsaid
      | some definition =>
          obtain ⟨hread, halters⟩ := alters_of_ofStatement? hdefinition
          refine ⟨fun said hsaid => Option.some.inj hsaid ▸ hread, ?_⟩
          have halters : alters (.inl definition) = s.alters d := by
            rw [Bool.eq_iff_iff, halters]
            exact beq_iff_eq.symm
          rw [Statement.Item.alteration?, Option.map_some, Option.toList_some,
            List.filter_singleton, halters]
          cases s.alters d <;> rfl
  | error u =>
      obtain ⟨raw, hraw, rfl⟩ := Outcome.exists_of_map h
      refine ⟨fun said hsaid raw' h' => ?_, rfl⟩
      cases hsaid
      cases h'
      exact ⟨_, hraw⟩

theorem text?_of_alteration? {item : Statement.Item} {text : String}
    (h : item.alteration? d = some text) : item.text? = some text := by
  cases item with
  | ok s => exact (Option.ite_none_right_eq_some.1 h).2
  | error => cases h

/-- Items with the texts of what the `ALTER`s are say what those said. -/
theorem readings_repeats {items repeats : List Statement.Item}
    {said : List (Definition ⊕ RawStatement)} (h : readings d items = .ok said)
    (hrepeats : repeats.map Statement.Item.text? =
      (items.filterMap (Statement.Item.alteration? d)).map some) :
    readings d repeats = .ok (said.filter alters) ∧ ∀ x ∈ said, Read d x := by
  induction items generalizing repeats said with
  | nil =>
      cases h
      rw [List.map_eq_nil_iff.1 hrepeats]
      exact ⟨rfl, fun x hx => nomatch hx⟩
  | cons item items ih =>
      obtain ⟨found, hfound, h⟩ := Outcome.bind_eq_ok.1 h
      obtain ⟨rest, hrest, h⟩ := Outcome.bind_eq_ok.1 h
      cases h
      obtain ⟨hread, hfilter⟩ := read_reading hfound
      have hmem (hall : ∀ x ∈ rest, Read d x) : ∀ x ∈ found.toList ++ rest, Read d x := by
        intro x hx
        rcases List.mem_append.1 hx with hx | hx
        · exact hread x (Option.mem_toList.1 hx)
        · exact hall x hx
      rw [List.filterMap_cons] at hrepeats
      cases htext : item.alteration? d with
      | none =>
          rw [htext] at hrepeats hfilter
          obtain ⟨hrepeated, hall⟩ := ih hrest hrepeats
          rw [List.filter_append, hfilter]
          exact ⟨hrepeated, hmem hall⟩
      | some text =>
          rw [htext] at hrepeats hfilter
          cases repeats with
          | nil => cases hrepeats
          | cons repeated repeats =>
              obtain ⟨hfirst, hrepeats⟩ := List.cons.inj hrepeats
              obtain ⟨hrepeated, hall⟩ := ih hrest hrepeats
              rw [List.filter_append, hfilter, readings, reading_of_text? hfirst,
                ← reading_of_text? (text?_of_alteration? htext), hfound, hrepeated]
              exact ⟨rfl, hmem hall⟩

end Finding

theorem Occurrence.last?_append (xs ys : List Occurrence) (k : ObjectKey) :
    last? (xs ++ ys) k = (last? ys k).or (last? xs k) := by
  rw [last?, List.reverse_append, List.find?_append]
  rfl

namespace Finding

variable {f : Finding} {fs : List Finding} {e : Occurrence} {k : ObjectKey}

def again (fs : List Finding) : List Finding := fs.filter (fun f => alters f.said)

theorem kept?_of_occurrence? {raw : RawStatement} (h : f.occurrence? = some e)
    (hraw : e.object = .raw raw) : kept? f.said = some raw := by
  cases f with
  | defined place found =>
      cases found with
      | change => cases h
      | object o =>
          cases h
          obtain rfl : o = .raw raw := hraw
          rfl
  | unfinished place u raw' =>
      cases h
      cases hraw
      rfl

theorem exists_raw_of_alters (h : f.occurrence? = some e) (halters : alters f.said = true) :
    ∃ raw, e.object = .raw raw ∧ raw.verb = "ALTER" := by
  cases f with
  | unfinished => cases halters
  | defined place found =>
      cases found with
      | change => cases h
      | object o =>
          cases h
          cases o with
          | raw raw => exact ⟨raw, rfl, beq_iff_eq.1 halters⟩
          | _ => cases halters

theorem stranded?_again (known : List ObjectKey) :
    (again fs).filterMap (stranded? known) = fs.filterMap (stranded? known) := by
  rw [again, List.filterMap_filter]
  refine List.filterMap_congr fun f _ => ?_
  cases f with
  | unfinished => exact ite_self none
  | defined place found =>
      cases found with
      | object => exact ite_self none
      | change => rfl

/-- An `ALTER` that is kept as text is under its label already, or what is there is the same. -/
theorem last?_again (hread : ∀ f ∈ fs, Read d f.said)
    (h : Occurrence.last? ((again fs).filterMap occurrence?) k = some e) :
    ∃ e', Occurrence.last? (fs.filterMap occurrence?) k = some e' ∧ e'.object = e.object := by
  obtain ⟨hmem, rfl⟩ := Occurrence.mem_of_last? h
  obtain ⟨f, hf, hoccurs⟩ := List.mem_filterMap.1 hmem
  obtain ⟨hf, halters⟩ := List.mem_filter.1 hf
  obtain ⟨raw, hraw, hverb⟩ := exists_raw_of_alters hoccurs halters
  obtain ⟨s, hs⟩ := hread f hf raw (kept?_of_occurrence? hoccurs hraw)
  obtain ⟨e', he'⟩ := Occurrence.exists_last? (List.mem_filterMap.2 ⟨f, hf, hoccurs⟩)
  refine ⟨e', he', ?_⟩
  obtain ⟨hmem', hkey⟩ := Occurrence.mem_of_last? he'
  obtain ⟨f', hf', hoccurs'⟩ := List.mem_filterMap.1 hmem'
  have hkey : e'.object.key = (Object.raw raw).key := hraw ▸ hkey
  cases hobject : e'.object with
  | raw raw' =>
      rw [hobject] at hkey
      obtain ⟨s', hs'⟩ := hread f' hf' raw' (kept?_of_occurrence? hoccurs' hobject)
      rw [hraw, rawStatement_unique hs hs' hverb (congrArg ObjectKey.name hkey)]
  | _ =>
      rw [hobject] at hkey
      cases congrArg ObjectKey.kind hkey

/-- A change is kept as text or not whether or not more is kept as text. -/
theorem stranded?_append_raw {known raws : List ObjectKey} (h : ∀ k ∈ raws, k.kind = .raw)
    (f : Finding) : stranded? (known ++ raws) f = stranded? known f := by
  cases f with
  | unfinished => rfl
  | defined place found =>
      cases found with
      | object => rfl
      | change name changes raw =>
          have hraw : (⟨.table, name⟩ : ObjectKey) ∉ raws := fun hmem => nomatch h _ hmem
          have hmem : (⟨.table, name⟩ : ObjectKey) ∈ known ++ raws ↔
              ⟨.table, name⟩ ∈ known := by
            rw [List.mem_append, or_iff_left hraw]
          exact ite_congr (propext hmem) (fun _ => rfl) (fun _ => rfl)

theorem kind_of_again (he : e ∈ (again fs).filterMap occurrence?) : e.key.kind = .raw := by
  obtain ⟨f, hf, hoccurs⟩ := List.mem_filterMap.1 he
  obtain ⟨raw, hraw, -⟩ := exists_raw_of_alters hoccurs (List.mem_filter.1 hf).2
  rw [Occurrence.key, hraw]
  rfl

theorem occurrences_append_again (fs : List Finding) :
    occurrences (fs ++ again fs) =
      fs.filterMap occurrence? ++ (again fs).filterMap occurrence? ++
        (fs.filterMap (stranded? ((fs.filterMap occurrence?).map Occurrence.key)) ++
          fs.filterMap (stranded? ((fs.filterMap occurrence?).map Occurrence.key))) := by
  have hraw : ∀ k ∈ ((again fs).filterMap occurrence?).map Occurrence.key, k.kind = .raw := by
    intro k hk
    obtain ⟨e, he, rfl⟩ := List.mem_map.1 hk
    exact kind_of_again he
  simp only [occurrences, List.filterMap_append, List.map_append, stranded?_again,
    stranded?_append_raw hraw]

/-- The keys come up in the order in which they came up first, and the same is under each. -/
theorem occurrences_again (hread : ∀ f ∈ fs, Read d f.said) :
    ((occurrences (fs ++ again fs)).map Occurrence.key).eraseDups =
      ((occurrences fs).map Occurrence.key).eraseDups ∧
    ∀ k, (Occurrence.last? (occurrences (fs ++ again fs)) k).map Occurrence.object =
      (Occurrence.last? (occurrences fs) k).map Occurrence.object := by
  rw [occurrences_append_again, occurrences]
  generalize fs.filterMap (stranded? ((fs.filterMap occurrence?).map Occurrence.key)) = stranded
  constructor
  · simp only [List.map_append]
    refine Lists.eraseDups_append_append (List.map_subset _ ?_) _
    exact ((List.filter_sublist (p := fun f => alters f.said)).filterMap occurrence?).subset
  · intro k
    simp only [Occurrence.last?_append]
    cases Occurrence.last? stranded k with
    | some e => rfl
    | none =>
        cases hagain : Occurrence.last? ((again fs).filterMap occurrence?) k with
        | none => rfl
        | some e =>
            obtain ⟨e', he', hobject⟩ := last?_again hread hagain
            rw [he']
            exact congrArg some hobject.symm

/-- Changes that are folded twice lead to where they led the first time. -/
theorem foldl_fold_foldl_fold (fs : List Finding) (o : Object) :
    fs.foldl fold (fs.foldl fold o) = fs.foldl fold o := by
  by_cases h : ∃ t, o = .table t
  · obtain ⟨t, rfl⟩ := h
    have hname (changes : List (List TableChange)) :
        (changes.foldl Table.applyAll t).name = t.name := by
      induction changes using List.reverseRecOn with
      | nil => rfl
      | append_singleton changes change ih => rw [List.foldl_concat, Table.name_applyAll, ih]
    rw [foldl_fold_table, foldl_fold_table, hname, Table.foldl_applyAll_foldl_applyAll]
  · have hsame := foldl_fold_of_not_table (not_exists.1 h) fs
    rw [hsame, hsame]

theorem foldl_fold_again (fs : List Finding) (o : Object) :
    (again fs).foldl fold o = fs.foldl fold o := by
  rw [again, List.foldl_filter]
  congr 1
  funext o f
  cases f with
  | unfinished => exact ite_self o
  | defined place found =>
      cases found with
      | object => exact ite_self o
      | change => rfl

end Finding

namespace Model

theorem objects_eq_of_get? {m n : Model} (hkeys : m.keys = n.keys)
    (hget : ∀ k, m.get? k = n.get? k) : m.objects = n.objects := by
  have hfound (m : Model) : m.objects.map some = m.keys.map m.get? := by
    rw [keys, List.map_map]
    exact List.map_congr_left fun o ho => (get?_key ho).symm
  refine List.map_injective_iff.2 (fun _ _ => Option.some.inj) ?_
  rw [hfound, hfound, hkeys]
  exact List.map_congr_left fun k _ => hget k

theorem objects_ofFindings_again {fs : List Finding} (hread : ∀ f ∈ fs, Finding.Read d f.said) :
    (ofFindings (fs ++ Finding.again fs)).objects = (ofFindings fs).objects := by
  obtain ⟨hkeys, hlast⟩ := Finding.occurrences_again hread
  have hagain := accounts_ofFindings (fs ++ Finding.again fs)
  have honce := accounts_ofFindings fs
  refine objects_eq_of_get? ?_ fun k => ?_
  · rw [hagain.keys, honce.keys, hkeys]
  · have hobject (es : List Occurrence) (gs : List Finding) : (Occurrence.last? es k).map
        (fun e => gs.foldl Finding.fold e.object) =
          ((Occurrence.last? es k).map Occurrence.object).map (gs.foldl Finding.fold) := by
      rw [Option.map_map]
      rfl
    rw [hagain.get?, honce.get?, hobject, hobject, hlast]
    refine congrArg (Option.map · _) (funext fun o => ?_)
    rw [List.foldl_append, Finding.foldl_fold_again, Finding.foldl_fold_foldl_fold]

end Model

/-- Scripts that say once more, and in the same order, what the `ALTER`s before them say change no
object, nor the order of the objects. -/
theorem objects_ofScripts_repeats (d : Dialect) (scripts repeats : List Script)
    (h : (repeats.flatMap fun s => Statement.split d s.sql).map Statement.Item.text? =
      ((scripts.flatMap fun s => Statement.split d s.sql).filterMap
        (Statement.Item.alteration? d)).map some) :
    (Model.ofScripts d (scripts ++ repeats)).map Model.objects =
      (Model.ofScripts d scripts).map Model.objects := by
  have hsaid := Finding.map_said_ofScripts (d := d) scripts
  have hboth := Finding.map_said_ofScripts (d := d) (scripts ++ repeats)
  rw [List.flatMap_append, Finding.readings_append, ← hsaid] at hboth
  rw [Model.ofScripts, Model.ofScripts]
  cases hfs : Finding.ofScripts d scripts with
  | error e =>
      rw [hfs] at hboth
      cases hgs : Finding.ofScripts d (scripts ++ repeats) with
      | error e' =>
          rw [hgs] at hboth
          cases hboth
          rfl
      | ok gs =>
          rw [hgs] at hboth
          cases hboth
  | ok fs =>
      rw [hfs] at hsaid hboth
      obtain ⟨hrepeated, hread⟩ := Finding.readings_repeats hsaid.symm h
      rw [hrepeated] at hboth
      obtain ⟨gs, hgs, hsame⟩ := Outcome.exists_of_map hboth
      rw [hgs]
      have hagain : gs.map Finding.said = (fs ++ Finding.again fs).map Finding.said := by
        rw [hsame, List.map_append, Finding.again, List.filter_map]
        rfl
      refine congrArg Except.ok ((Model.objects_ofFindings hagain).trans ?_)
      exact Model.objects_ofFindings_again fun f hf => hread f.said (List.mem_map_of_mem hf)

def growingScripts : List Script :=
  [⟨"a.sql", "ALTER TABLE t ADD b text;\nCREATE TABLE t (a int);\nALTER TABLE u ADD c int;"⟩,
    ⟨"b.sql", "ALTER TABLE t ADD PRIMARY KEY (b);\nalter table t ADD b int;\nDROP TABLE v;"⟩]

def growingAgain : List Script :=
  [⟨"c.sql", "ALTER TABLE t ADD b text;\nALTER TABLE u ADD c int;"⟩,
    ⟨"d.sql", "ALTER TABLE t ADD PRIMARY KEY (b);\nalter table t ADD b int;"⟩]

theorem objects_ofScripts_repeats_growing :
    (growingAgain.flatMap fun s => Statement.split .postgres s.sql).map Statement.Item.text? =
      ((growingScripts.flatMap fun s => Statement.split .postgres s.sql).filterMap
        (Statement.Item.alteration? .postgres)).map some ∧
    (Model.ofScripts .postgres (growingScripts ++ growingAgain)).map Model.objects =
      (Model.ofScripts .postgres growingScripts).map Model.objects := by
  have h : (growingAgain.flatMap fun s => Statement.split .postgres s.sql).map
      Statement.Item.text? =
        ((growingScripts.flatMap fun s => Statement.split .postgres s.sql).filterMap
          (Statement.Item.alteration? .postgres)).map some := by
    -- The scripts are split as lists of characters, so that no string has to be decoded.
    unfold growingAgain growingScripts Statement.split Statement.Splitter.start
    simp only [List.flatMap_cons, List.flatMap_nil]
    repeat rw [String.toList_ofList]
    decide +kernel
  exact ⟨h, objects_ofScripts_repeats .postgres growingScripts growingAgain h⟩

end SchemaDrift
