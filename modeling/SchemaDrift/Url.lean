import SchemaDrift.Text.Case
import SchemaDrift.Text.Pieces

/-!
Connection URLs. Credentials given as parameters of the query move to the place before the host.
-/

namespace SchemaDrift.Url

/-- The parameters of a query. The last user and the last password count. -/
structure Query where
  user : Option (List Char)
  password : Option (List Char)
  others : List (List Char)
deriving DecidableEq, Repr, Inhabited

namespace Query

/-- Adds a parameter. A piece without a value is none. -/
def add (q : Query) (parameter : List Char) : Query :=
  match Text.cut '=' parameter with
  | (_, none) => q
  | (key, some value) =>
      if Text.lower key == "user".toList then { q with user := some value }
      else if Text.lower key == "password".toList then { q with password := some value }
      else { q with others := q.others ++ [parameter] }

def ofText (s : List Char) : Query := (Text.pieces '&' s).foldl add ⟨none, none, []⟩

/-- The credentials as they stand before a host. -/
def authority? (q : Query) : Option (List Char) :=
  match q.user, q.password with
  | some u, some p => some (u ++ ':' :: p ++ ['@'])
  | some u, none => some (u ++ ['@'])
  | none, some p => some (':' :: p ++ ['@'])
  | none, none => none

def text (q : Query) : List Char :=
  if q.others.isEmpty then [] else '?' :: Text.join '&' q.others

end Query

def schemes : List (List Char) := ["postgresql://".toList, "postgres://".toList]

def scheme? (url : List Char) : Option (List Char) := schemes.find? (·.isPrefixOf url)

/-- Puts credentials before the host. A URL of another scheme has no place for them. -/
def withAuthority (url authority : List Char) : List Char :=
  match scheme? url with
  | some scheme => scheme ++ authority ++ url.drop scheme.length
  | none => url

def withoutDriver (url : List Char) : List Char :=
  let mark := "jdbc:".toList
  if mark.isPrefixOf url then url.drop mark.length else url

def normalize (url : List Char) : List Char :=
  match Text.cut '?' (withoutDriver url) with
  | (_, none) => withoutDriver url
  | (base, some query) =>
      let q := Query.ofText query
      (match q.authority? with
        | some authority => withAuthority base authority
        | none => base) ++ q.text

def normalized (url : String) : String := String.ofList (normalize url.toList)

def contains (s pattern : List Char) : Bool :=
  match s with
  | [] => pattern.isEmpty
  | _ :: cs => pattern.isPrefixOf s || contains cs pattern

/-- Asks for probes of an idle connection after so many seconds. Zero asks for none, and what a
connection string says about probes already stands. -/
def withKeepalive (connection : String) (seconds : Nat) : String :=
  let s := connection.toList
  if seconds == 0 || contains (Text.lower s) "keepalives".toList then connection
  else if (scheme? s).isSome then
    let separator := if s.contains '?' then "&" else "?"
    connection ++ separator ++ s!"keepalives=1&keepalives_idle={seconds}"
  else connection ++ s!" keepalives=1 keepalives_idle={seconds}"

end SchemaDrift.Url
