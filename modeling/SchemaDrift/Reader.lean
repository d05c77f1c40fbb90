import SchemaDrift.Identifier
import SchemaDrift.Schema.Name
import SchemaDrift.Token.Canonical

/-!
Reading tokens. A reader takes tokens off the front of a list. It may find nothing, and then the
tokens that it took stay taken; only an identifier that cannot be read stops everything.
-/

namespace SchemaDrift

def Reader (α : Type) : Type := Dialect → List Token → Except Fault (Option α × List Token)

namespace Reader

variable {α β σ : Type}

protected def pure (a : α) : Reader α := fun _ ts => .ok (some a, ts)

protected def bind (p : Reader α) (f : α → Reader β) : Reader β := fun d ts =>
  match p d ts with
  | .error e => .error e
  | .ok (none, rest) => .ok (none, rest)
  | .ok (some a, rest) => f a d rest

instance : Monad Reader where
  pure := Reader.pure
  bind := Reader.bind

def fail : Reader α := fun _ ts => .ok (none, ts)

def dialect : Reader Dialect := fun d ts => .ok (some d, ts)

def peek (f : List Token → α) : Reader α := fun _ ts => .ok (some (f ts), ts)

def ofOption : Option α → Reader α
  | some a => Reader.pure a
  | none => fail

def ofExcept (r : Except Fault α) : Reader α := fun _ ts =>
  match r with
  | .error e => .error e
  | .ok a => .ok (some a, ts)

def optional (p : Reader α) : Reader (Option α) := fun d ts =>
  match p d ts with
  | .error e => .error e
  | .ok (a, rest) => .ok (some a, rest)

/-- What `p` finds. If that is nothing, no token is taken. -/
def attempt (p : Reader α) : Reader (Option α) := fun d ts =>
  match p d ts with
  | .error e => .error e
  | .ok (some a, rest) => .ok (some (some a), rest)
  | .ok (none, _) => .ok (some none, ts)

def within (tokens : List Token) (p : Reader α) : Reader α := fun d ts =>
  match p d tokens with
  | .error e => .error e
  | .ok (a, _) => .ok (a, ts)

def run? (p : Reader α) (d : Dialect) (s : List Char) : Except Fault (Option α) :=
  (p d (Token.lex d s)).map Prod.fst

/-- Steps until a step finds that it is done. A step that takes no token is the last. -/
def iterate (step : σ → Reader (Option σ)) (s : σ) : Reader σ := fun d ts =>
  match step s d ts with
  | .error e => .error e
  | .ok (none, rest) => .ok (none, rest)
  | .ok (some none, rest) => .ok (some s, rest)
  | .ok (some (some next), rest) =>
      if rest.length < ts.length then iterate step next d rest else .ok (some next, rest)
termination_by _ ts => ts.length

def atEnd : Reader Bool := peek List.isEmpty

def untilEnd (step : σ → Reader σ) : σ → Reader σ :=
  iterate (fun s => do
    if ← atEnd then return none
    else return some (← step s))

def eachOf (p : Reader α) : List (List Token) → Reader (List α)
  | [] => pure []
  | ts :: rest => do
      let a ← within ts p
      return a :: (← eachOf p rest)

def withSource (p : Reader α) : Reader (α × List Char) := fun d ts =>
  match p d ts with
  | .error e => .error e
  | .ok (none, rest) => .ok (none, rest)
  | .ok (some a, rest) => .ok (some (a, Token.span (ts.take (ts.length - rest.length))), rest)

def advance : Reader Token := fun _ ts =>
  match ts with
  | [] => .ok (none, [])
  | t :: ts => .ok (some t, ts)

def skip : Reader Unit := fun _ ts => .ok (some (), ts.tail)

def rest : Reader (List Char) := fun _ ts => .ok (some (Token.span ts), [])

/-! Keywords and symbols -/

def headIs (p : Token → Bool) (ts : List Token) : Bool := (ts.head?.map p).getD false

def atKeyword (keyword : String) : List Token → Bool := headIs (·.isKeyword keyword)

def atSymbol (s : String) : List Token → Bool := headIs (·.isSymbol s)

def atKeywords : List String → List Token → Bool
  | [], _ => true
  | _ :: _, [] => false
  | k :: ks, t :: ts => t.isKeyword k && atKeywords ks ts

/-- Takes a sequence of keywords, all or none. -/
def keywords (ks : List String) : Reader Bool := fun _ ts =>
  if atKeywords ks ts then .ok (some true, ts.drop ks.length) else .ok (some false, ts)

def keyword (k : String) : Reader Bool := keywords [k]

def symbol (s : String) : Reader Bool := fun _ ts =>
  if atSymbol s ts then .ok (some true, ts.tail) else .ok (some false, ts)

def oneOf (ks : List String) : Reader (Option String) := fun _ ts =>
  match ts with
  | [] => .ok (some none, [])
  | t :: rest =>
      match ks.find? t.isKeyword with
      | some k => .ok (some (some k), rest)
      | none => .ok (some none, t :: rest)

def upperWord? : List Token → Option String
  | [] => none
  | t :: _ => if t.isWord then some (String.ofList (Text.upper t.text)) else none

def peekUpper : Reader (Option String) := peek upperWord?

/-! Names -/

def identifier : Reader String := fun d ts =>
  match ts with
  | [] => .ok (none, [])
  | t :: rest =>
      if t.isName then
        match Identifier.read d t.text with
        | .error e => .error e
        | .ok name => .ok (some name, rest)
      else .ok (none, t :: rest)

/-- The parts of a name after its first: each after a dot. A dot that no part follows is taken
as well. -/
def moreParts : List String → Reader (List String) :=
  iterate (fun parts => do
    if ← symbol "." then
      match ← optional identifier with
      | some part => return some (parts ++ [part])
      | none => return none
    else return none)

/-- The schema that the dialect implies is left out, so that it may be written or not. -/
def qualify (d : Dialect) (parts : List String) : Option QualifiedName :=
  match parts.reverse with
  | [] => none
  | name :: qualifiers =>
      some ⟨qualifiers.head?.filter (fun s => some s != d.defaultSchema), name⟩

/-- `[catalog.][schema.]name` -/
def qualifiedName : Reader QualifiedName := do
  let parts ← moreParts [← identifier]
  ofOption (qualify (← dialect) parts)

/-! Groups and values -/

def group : Reader (List Token) := fun _ ts =>
  match ts with
  | [] => .ok (none, [])
  | t :: ts =>
      if t.isSymbol "(" then .ok (some (Token.groupFrom 1 ts).1, (Token.groupFrom 1 ts).2)
      else .ok (none, t :: ts)

def groupText : Reader (List Char) := do return Token.span (← group)

def skipGroup : Reader Unit := do
  let _ ← optional group

def value : Reader (List Char) := do
  if ← peek (atSymbol "(") then return (← withSource group).2
  else return (← advance).text

def valueOr (default : List Char) : Reader (List Char) := do
  return (← optional value).getD default

/-- What follows the type of a cast, whose words end no clause. -/
def afterCastType (ts : List Token) : List Token :=
  let named := match ts with
    | t :: us => if t.isName then us else ts
    | [] => []
  match named.dropWhile Token.isCastWord with
  | [] => []
  | t :: us => if t.isSymbol "(" then (Token.groupFrom 1 us).2 else t :: us

theorem afterCastType_length (ts : List Token) : (afterCastType ts).length ≤ ts.length := by
  simp only [afterCastType]
  generalize hn : (match ts with
    | t :: us => if t.isName then us else ts
    | [] => []) = named
  have hnamed : named.length ≤ ts.length := by
    subst hn
    split
    · split <;> simp
    · simp
  have hdrop := (List.dropWhile_sublist (l := named) Token.isCastWord).length_le
  split
  · simp
  · next t us h =>
      rw [h] at hdrop
      split
      · have := Token.groupFrom_length 1 us
        simp only [List.length_cons] at hdrop
        omega
      · omega

/-- What is left at the first top-level comma or stop word. -/
def dropUntil (stops : List String) (ts : List Token) : List Token :=
  match ts with
  | [] => []
  | t :: ts =>
      if t.isSymbol "(" then dropUntil stops (Token.groupFrom 1 ts).2
      else if t.isSymbol "::" then dropUntil stops (afterCastType ts)
      else if t.isSymbol "," || stops.any t.isKeyword then t :: ts
      else dropUntil stops ts
termination_by ts.length
decreasing_by
  · have := Token.groupFrom_length 1 ts
    simp only [List.length_cons]
    omega
  · have := afterCastType_length ts
    simp only [List.length_cons]
    omega
  · simp

/-- The source up to the first top-level comma or stop word. -/
def sourceUntil (stops : List String) : Reader (List Char) := do
  return (← withSource (fun _ ts => .ok (some (), dropUntil stops ts))).2

end Reader

end SchemaDrift
