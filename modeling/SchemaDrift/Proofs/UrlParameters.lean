import Mathlib.Data.List.Flatten
import Mathlib.Data.List.TakeWhile
import SchemaDrift.Url

namespace SchemaDrift.Url

def base (url : List Char) : List Char := (Text.cut '?' (withoutDriver url)).1

def parameters (url : List Char) : List (List Char) :=
  match (Text.cut '?' (withoutDriver url)).2 with
  | none => []
  | some query => Text.pieces '&' query

def valueOf? (key : String) (parameter : List Char) : Option (List Char) :=
  match Text.cut '=' parameter with
  | (_, none) => none
  | (k, some value) => if Text.lower k == key.toList then some value else none

def isCredential (parameter : List Char) : Bool :=
  (valueOf? "user" parameter).isSome || (valueOf? "password" parameter).isSome

/-- Whether a parameter is a credential with a place before the host. -/
def moves (url parameter : List Char) : Bool :=
  (scheme? (base url)).isSome && isCredential parameter

def moved (url : List Char) (key : String) : List (List Char) :=
  ((parameters url).filter (moves url)).filterMap (valueOf? key)

def staying (url : List Char) : List (List Char) := (parameters url).filter (!moves url ·)

def asQuery (ps : List (List Char)) : List Char :=
  if ps.isEmpty then [] else '?' :: Text.join '&' ps

def withCredentials (url : List Char) (user password : Option (List Char)) : List Char :=
  match Query.authority? ⟨user, password, []⟩ with
  | some authority => withAuthority url authority
  | none => url

/-- No parameter is lost: each credential that moves has its place before the host, and all others
stay in the query, unchanged and in order. -/
def KeepsParameters (url : List Char) : Prop :=
  ∃ user password : Option (List Char),
    moved url "user" = user.toList ∧ moved url "password" = password.toList ∧
      normalize url = withCredentials (base url) user password ++ asQuery (staying url)

def CredentialsFit (url : List Char) : Prop :=
  if (scheme? (base url)).isSome then
    (moved url "user").length ≤ 1 ∧ (moved url "password").length ≤ 1
  else ∀ p ∈ parameters url, isCredential p = false

theorem cut_of_not_mem {mark : Char} {s : List Char} (h : mark ∉ s) :
    Text.cut mark s = (s, none) := by
  have hall : ∀ c ∈ s, (c != mark) = true := fun c hc => bne_iff_ne.2 fun hcm => h (hcm ▸ hc)
  simp [Text.cut, List.takeWhile_eq_self_iff.2 hall, List.dropWhile_eq_nil_iff.2 hall]

theorem cut_append_cons {mark : Char} {s : List Char} (h : mark ∉ s) (t : List Char) :
    Text.cut mark (s ++ mark :: t) = (s, some t) := by
  have hall : ∀ c ∈ s, (c != mark) = true := fun c hc => bne_iff_ne.2 fun hcm => h (hcm ▸ hc)
  simp [Text.cut, List.takeWhile_append_of_pos hall, List.dropWhile_append_of_pos hall]

theorem base_append_asQuery (url : List Char) :
    base url ++ asQuery (parameters url) = withoutDriver url := by
  by_cases h : '?' ∈ withoutDriver url
  · obtain ⟨front, query, hurl, hfront⟩ := List.eq_append_cons_of_mem h
    simp [base, parameters, asQuery, hurl, cut_append_cons hfront, Text.pieces_ne_nil,
      Text.join_pieces]
  · simp [base, parameters, asQuery, cut_of_not_mem h]

theorem length_join_cons (p : List Char) (ps : List (List Char)) :
    (Text.join '&' (p :: ps)).length + 1 = ((p :: ps).flatMap (List.cons '&')).length := by
  induction ps generalizing p with
  | nil => simp [Text.join]
  | cons q ps ih =>
      have := ih q
      rw [Text.join_cons (List.cons_ne_nil q ps), List.flatMap_cons]
      simp only [List.length_append, List.length_cons]
      omega

theorem length_asQuery (ps : List (List Char)) :
    (asQuery ps).length = (ps.flatMap (List.cons '&')).length := by
  cases ps with
  | nil => rfl
  | cons p ps => exact length_join_cons p ps

/-- A query without some of its pieces is another query. -/
theorem asQuery_filter_eq_iff {f : List Char → Bool} {ps : List (List Char)} :
    asQuery (ps.filter f) = asQuery ps ↔ ∀ p ∈ ps, f p = true := by
  constructor
  · intro h
    replace h := congrArg List.length h
    rw [length_asQuery, length_asQuery] at h
    induction ps with
    | nil => simp
    | cons p ps ih =>
        have hle := ((List.filter_sublist (p := f) (l := ps)).flatMap (List.cons '&')).length_le
        rw [List.filter_cons] at h
        split at h
        · next hp =>
            rw [List.flatMap_cons, List.flatMap_cons, List.length_append, List.length_append] at h
            exact List.forall_mem_cons.2 ⟨hp, ih (Nat.add_left_cancel h)⟩
        · rw [List.flatMap_cons, List.length_append, List.length_cons] at h
          omega
  · intro h
    rw [List.filter_eq_self.2 h]

theorem mem_of_valueOf? {key : String} {p v : List Char} (h : valueOf? key p = some v) :
    '=' ∈ p := by
  by_contra hp
  simp [valueOf?, cut_of_not_mem hp] at h

theorem mem_of_isCredential {p : List Char} (h : isCredential p = true) : '=' ∈ p := by
  simp only [isCredential, Bool.or_eq_true, Option.isSome_iff_exists] at h
  rcases h with ⟨v, hv⟩ | ⟨v, hv⟩
  · exact mem_of_valueOf? hv
  · exact mem_of_valueOf? hv

def isKept (p : List Char) : Bool := decide ('=' ∈ p) && !isCredential p

theorem add_eq (q : Query) (p : List Char) :
    q.add p = ⟨(valueOf? "user" p).or q.user, (valueOf? "password" p).or q.password,
      q.others ++ [p].filter isKept⟩ := by
  by_cases h : '=' ∈ p
  · obtain ⟨key, value, rfl, hkey⟩ := List.eq_append_cons_of_mem h
    have hcut := cut_append_cons hkey value
    by_cases huser : Text.lower key = "user".toList
    · simp [Query.add, valueOf?, isKept, isCredential, hcut, huser]
    · by_cases hpassword : Text.lower key = "password".toList
      · simp [Query.add, valueOf?, isKept, isCredential, hcut, hpassword]
      · simp_all [Query.add, valueOf?, isKept, isCredential]
  · simp [Query.add, valueOf?, isKept, cut_of_not_mem h, h]

theorem foldl_add (ps : List (List Char)) (q : Query) :
    ps.foldl Query.add q =
      ⟨(ps.filterMap (valueOf? "user")).getLast?.or q.user,
        (ps.filterMap (valueOf? "password")).getLast?.or q.password,
        q.others ++ ps.filter isKept⟩ := by
  induction ps generalizing q with
  | nil => simp
  | cons p ps ih =>
      have hlast (key : String) (o : Option (List Char)) :
          ((p :: ps).filterMap (valueOf? key)).getLast?.or o =
            (ps.filterMap (valueOf? key)).getLast?.or ((valueOf? key p).or o) := by
        cases h : valueOf? key p with
        | none => simp [h]
        | some v => simp [h, List.getLast?_cons, Option.or_some]
      rw [List.foldl_cons, ih, add_eq, hlast, hlast]
      by_cases hp : isKept p <;> simp [hp]

theorem normalize_eq (url : List Char) :
    normalize url =
      withCredentials (base url) ((parameters url).filterMap (valueOf? "user")).getLast?
          ((parameters url).filterMap (valueOf? "password")).getLast? ++
        asQuery ((parameters url).filter isKept) := by
  by_cases h : '?' ∈ withoutDriver url
  · obtain ⟨front, query, hurl, hfront⟩ := List.eq_append_cons_of_mem h
    have hcut := cut_append_cons hfront query
    simp only [normalize, base, parameters, hurl, hcut, Query.ofText, foldl_add, Option.or_none,
      List.nil_append]
    rfl
  · simp [normalize, base, parameters, asQuery, withCredentials, Query.authority?,
      cut_of_not_mem h]

theorem withCredentials_of_scheme?_eq_none {url : List Char} (h : scheme? url = none)
    (user password : Option (List Char)) : withCredentials url user password = url := by
  simp only [withCredentials]
  split
  · simp [withAuthority, h]
  · rfl

section

variable {url : List Char}

theorem moved_of_scheme?_eq_none (h : scheme? (base url) = none) (key : String) :
    moved url key = [] := by
  simp [moved, moves, h]

theorem staying_of_scheme?_eq_none (h : scheme? (base url) = none) :
    staying url = parameters url := by
  simp [staying, moves, h]

theorem moved_of_isSome (h : (scheme? (base url)).isSome = true) {key : String}
    (hkey : key = "user" ∨ key = "password") :
    moved url key = (parameters url).filterMap (valueOf? key) := by
  rw [moved, List.filterMap_filter]
  congr 1
  funext p
  rcases hkey with rfl | rfl <;>
    cases hvalue : valueOf? _ p <;> simp [moves, isCredential, h, hvalue]

theorem filter_isKept_eq (h : (scheme? (base url)).isSome = true) :
    (parameters url).filter isKept = (staying url).filter (fun p => decide ('=' ∈ p)) := by
  rw [staying, List.filter_filter]
  congr 1
  funext p
  simp [isKept, moves, h]

theorem keepsParameters_iff_of_scheme?_eq_none (h : scheme? (base url) = none) :
    KeepsParameters url ↔ ∀ p ∈ parameters url, isKept p = true := by
  have hkeeps : KeepsParameters url ↔ normalize url = base url ++ asQuery (parameters url) := by
    simp [KeepsParameters, moved_of_scheme?_eq_none h, staying_of_scheme?_eq_none h,
      withCredentials_of_scheme?_eq_none h]
  rw [hkeeps, normalize_eq, withCredentials_of_scheme?_eq_none h, List.append_cancel_left_eq,
    asQuery_filter_eq_iff]

/-- Where the scheme has places for credentials, the last user and the last password are there. -/
theorem normalize_eq_of_isSome (h : (scheme? (base url)).isSome = true) :
    normalize url = withCredentials (base url) (moved url "user").getLast?
        (moved url "password").getLast? ++
      asQuery ((staying url).filter (fun p => decide ('=' ∈ p))) := by
  rw [normalize_eq, filter_isKept_eq h, moved_of_isSome h (.inl rfl), moved_of_isSome h (.inr rfl)]

theorem keepsParameters_iff_of_isSome (h : (scheme? (base url)).isSome = true) :
    KeepsParameters url ↔ (∀ p ∈ staying url, '=' ∈ p) ∧
      (moved url "user").length ≤ 1 ∧ (moved url "password").length ≤ 1 := by
  have hlast (values : List (List Char)) (value : Option (List Char))
      (hvalues : values = value.toList) : values.getLast? = value := by
    cases value <;> simp [hvalues]
  have hlength (values : List (List Char)) :
      values.length ≤ 1 ↔ ∃ value : Option (List Char), values = value.toList := by
    constructor
    · intro hle
      match values, hle with
      | [], _ => exact ⟨none, rfl⟩
      | [value], _ => exact ⟨some value, rfl⟩
    · rintro ⟨value, rfl⟩
      cases value <;> simp
  rw [hlength, hlength]
  constructor
  · rintro ⟨user, password, huser, hpassword, hurl⟩
    rw [normalize_eq_of_isSome h, hlast _ _ huser, hlast _ _ hpassword,
      List.append_cancel_left_eq, asQuery_filter_eq_iff] at hurl
    exact ⟨by simpa using hurl, ⟨user, huser⟩, ⟨password, hpassword⟩⟩
  · rintro ⟨hvalues, ⟨user, huser⟩, ⟨password, hpassword⟩⟩
    refine ⟨user, password, huser, hpassword, ?_⟩
    rw [normalize_eq_of_isSome h, hlast _ _ huser, hlast _ _ hpassword,
      asQuery_filter_eq_iff.2 (by simpa using hvalues)]

theorem keepsParameters_iff (url : List Char) :
    KeepsParameters url ↔ (∀ p ∈ parameters url, '=' ∈ p) ∧ CredentialsFit url := by
  cases h : scheme? (base url) with
  | none =>
      rw [keepsParameters_iff_of_scheme?_eq_none h, CredentialsFit, h]
      simp [isKept, forall_and]
  | some scheme =>
      have hsome : (scheme? (base url)).isSome = true := by simp [h]
      rw [keepsParameters_iff_of_isSome hsome, CredentialsFit, if_pos hsome]
      refine and_congr_left fun _ => ⟨fun hstay p hp => ?_, fun hall p hp => ?_⟩
      · by_cases hmoves : isCredential p
        · exact mem_of_isCredential hmoves
        · exact hstay p (by simp [staying, moves, hp, hmoves])
      · exact hall p (List.mem_filter.1 hp).1

/-- Where nothing moves, to keep all parameters is to leave the URL as it is. -/
theorem keepsParameters_iff_eq (h : ∀ p ∈ parameters url, moves url p = false) :
    KeepsParameters url ↔ normalize url = withoutDriver url := by
  have hstaying : staying url = parameters url := by
    simpa [staying] using h
  have hmoved (key : String) : moved url key = [] := by
    have hnone : (parameters url).filter (moves url) = [] := by simpa using h
    simp [moved, hnone]
  simp [KeepsParameters, hmoved, hstaying, withCredentials, Query.authority?,
    base_append_asQuery]

end

/-- No parameter is lost if and only if each has a value and each credential a place. Where no
credential moves, no parameter is lost if and only if the URL is left as it is, without the mark of
a driver. -/
theorem parameters_kept_iff (url : List Char) :
    (KeepsParameters url ↔ (∀ p ∈ parameters url, '=' ∈ p) ∧ CredentialsFit url) ∧
      ((∀ p ∈ parameters url, moves url p = false) →
        (KeepsParameters url ↔ normalize url = withoutDriver url)) :=
  ⟨keepsParameters_iff url, keepsParameters_iff_eq⟩

def driverUrl : List Char :=
  "jdbc:postgresql://h:5432/d?a=1?b&USER=x=y&sslmode=&Password=p&a=1".toList

theorem parameters_kept_iff_driverUrl :
    (parameters driverUrl).length = 5 ∧ (∀ p ∈ parameters driverUrl, '=' ∈ p) ∧
      CredentialsFit driverUrl ∧ KeepsParameters driverUrl ∧
      normalize driverUrl = "postgresql://x=y:p@h:5432/d?a=1?b&sslmode=&a=1".toList ∧
      (∀ p ∈ parameters "mysql://h/d?a=1&b=".toList, moves "mysql://h/d?a=1&b=".toList p = false) ∧
      normalize "mysql://h/d?a=1&b=".toList = "mysql://h/d?a=1&b=".toList := by
  have hvalues : ∀ p ∈ parameters driverUrl, '=' ∈ p := by decide
  have hfit : CredentialsFit driverUrl := by
    rw [CredentialsFit]
    decide
  refine ⟨by decide, hvalues, hfit, (parameters_kept_iff driverUrl).1.2 ⟨hvalues, hfit⟩, by decide,
    by decide, ?_⟩
  refine ((parameters_kept_iff _).2 (by decide)).1 ((parameters_kept_iff _).1.2 ⟨by decide, ?_⟩)
  rw [CredentialsFit]
  decide

/-- A piece without a value is lost, and so are credentials that have no place and all but the
last of those that share one. -/
theorem parameters_lost :
    ¬ KeepsParameters "postgres://h/d?sslmode=require&ssl".toList ∧
      normalize "postgres://h/d?sslmode=require&ssl".toList =
        "postgres://h/d?sslmode=require".toList ∧
      ¬ KeepsParameters "mysql://h/d?user=a&password=b".toList ∧
      normalize "mysql://h/d?user=a&password=b".toList = "mysql://h/d".toList ∧
      ¬ KeepsParameters "postgres://h/d?user=a&user=b".toList := by
  simp only [keepsParameters_iff, CredentialsFit]
  decide

end SchemaDrift.Url
