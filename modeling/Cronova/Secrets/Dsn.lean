import Cronova.Executor.Redaction
import Cronova.Secrets.Connections
import Cronova.Text.Marks
import Cronova.Text.Trim

/-! The password of a connection in the DSN of `internal/operator/sql.go`, and what `sqlOpSpec` registers of it.

`sqlOpSpec` registers the password as it is stored. The URL of PostgreSQL holds it escaped. The DSN of MySQL
holds it as it is, where there is a login at all.
-/

set_option autoImplicit false

namespace Cronova.Secrets

open Base64 (Bytes)
open Executor (redactBytes redactBytes_eq longestFirst mem_longestFirst redactMask mask_stars mask_ne_nil asterisk)
open Text (Completed not_completed masked_hides masked_shows trimSpace)

def utf8 (s : String) : Bytes := s.toUTF8.data.toList

/-- A character of one byte. -/
def byte (c : Char) : UInt8 := UInt8.ofNat c.toNat

/-! ### `net/url` -/

inductive Encoding where
  | userPassword | host | path | queryComponent
  deriving DecidableEq

def unreserved (c : UInt8) : Bool :=
  (byte 'a' ≤ c && c ≤ byte 'z') || (byte 'A' ≤ c && c ≤ byte 'Z') || (byte '0' ≤ c && c ≤ byte '9') || (utf8 "-_.~").contains c

/-- What `shouldEscape` denies. -/
def Encoding.keeps (mode : Encoding) (c : UInt8) : Bool :=
  unreserved c || match mode with
    | .userPassword => (utf8 "$&+,;=").contains c
    | .host => (utf8 "!$&'()*+,;=:[]<>\"").contains c
    | .path => (utf8 "$&+,/:;=@").contains c
    | .queryComponent => false

def upperhex (n : UInt8) : UInt8 := if n < 10 then byte '0' + n else byte 'A' + (n - 10)

def escapeByte (mode : Encoding) (c : UInt8) : Bytes :=
  if mode.keeps c then [c]
  else if c = byte ' ' ∧ mode = .queryComponent then [byte '+']
  else [byte '%', upperhex (c >>> 4), upperhex (c &&& 15)]

def escape (mode : Encoding) (s : Bytes) : Bytes := s.flatMap (escapeByte mode)

/-- `Userinfo.String`, of `UserPassword`. -/
def userinfo (username password : Bytes) : Bytes :=
  if username ≠ [] ∨ password ≠ [] then escape .userPassword username ++ byte ':' :: escape .userPassword password else []

/-- `URL.String`, of a URL with a scheme, with user information and with a path that starts with a slash. -/
def urlString (scheme user host path rawQuery : Bytes) : Bytes :=
  scheme ++ (utf8 "://" ++ (user ++ byte '@' :: (escape .host host ++ (escape .path path ++
    (if rawQuery = [] then [] else byte '?' :: rawQuery)))))

/-! ### `BuildDSN` -/

/-- A value of `map[string]any`, as far as `parseExtra` asks; other values are printed with `%v`. -/
inductive Value where
  | text (s : String)
  | null
  | other (printed : String)

/-- The configuration of the MySQL driver. -/
structure Config where
  user : Bytes
  passwd : Bytes
  net : Bytes
  addr : Bytes
  dbName : Bytes

/-- `json.Unmarshal` into a map, and `FormatDSN` of the MySQL driver. -/
structure Drivers where
  unmarshal : String → Option (List (String × Value))
  formatDSN : Config → Bytes

/-- `[username[:password]@]` of the driver's DSN. -/
def Config.credentials (cfg : Config) : Bytes :=
  if cfg.user = [] then []
  else cfg.user ++ ((if cfg.passwd = [] then [] else byte ':' :: cfg.passwd) ++ [byte '@'])

/-- The documented DSN of the driver is `[username[:password]@][protocol[(address)]]/dbname[?param1=value1&...&paramN=valueN]`. -/
def Drivers.Documented (lib : Drivers) : Prop :=
  ∀ cfg, cfg.net ≠ [] → cfg.addr ≠ [] → ∃ ending, lib.formatDSN cfg = cfg.credentials ++ (cfg.net ++ byte '(' :: (cfg.addr ++ byte ')' :: byte '/' :: ending))

inductive Driver where
  | pgx | mysql | sqlite
  deriving DecidableEq

inductive SQLError where
  | notFound (connID : String) (error : StoreError)
  | unsupported (type : String)
  deriving DecidableEq

/-- What `RunSQL` prints. `quoted` is `%q`, and `printed` is `%v`. -/
def SQLError.text (quoted : String → String) (printed : StoreError → String) : SQLError → String
  | .notFound connID error => s!"connection {quoted connID} not found: {printed error}"
  | .unsupported type => s!"unsupported sql connection type {quoted type} (want postgres/mysql/sqlite)"

/-- `strings.ToLower` where it can give an ASCII letter of a database's name. -/
def lowerType (type : String) : String :=
  String.ofList ((trimSpace type).toList.map fun c => if c = '\u0130' then 'i' else if c = '\u212a' then 'k' else c.toLower)

def hostPort (host : String) (port default : Int) : Bytes :=
  utf8 (host ++ ":" ++ toString (if port ≤ 0 then default else port))

section Build

variable (lib : Drivers)

def parseExtra (raw : String) : List (String × String) :=
  if trimSpace raw = "" then []
  else match lib.unmarshal raw with
    | none => []
    | some m => m.filterMap fun (k, v) =>
      match v with
      | .text s => some (k, s)
      | .null => none
      | .other printed => some (k, printed)

/-- A key that is missing in a map of strings reads as empty. -/
def extraValue (extra : List (String × String)) (key : String) : String := (extra.lookup key).getD ""

def BuildDSN (c : Connection) : Except SQLError (Driver × Bytes) :=
  let extra := parseExtra lib c.extra
  let db := extraValue extra "database"
  let type := lowerType c.type
  if type ∈ ["postgres", "postgresql", "pg"] then
    let ssl := extraValue extra "sslmode"
    let rawQuery := if ssl = "" then [] else utf8 "sslmode=" ++ escape .queryComponent (utf8 ssl)
    .ok (.pgx, urlString (utf8 "postgres") (userinfo (utf8 c.login) c.password) (hostPort c.host c.port 5432) (utf8 ("/" ++ db)) rawQuery)
  else if type ∈ ["mysql", "mariadb"] then
    .ok (.mysql, lib.formatDSN ⟨utf8 c.login, c.password, utf8 "tcp", hostPort c.host c.port 3306, utf8 db⟩)
  else if type ∈ ["sqlite", "sqlite3"] then .ok (.sqlite, utf8 c.host)
  else .error (.unsupported c.type)

structure SQLSpec where
  driver : Option Driver := none
  dsn : Bytes := []
  query : Bytes
  err : Option SQLError := none
  deriving DecidableEq

/-- `sqlOpSpec`: the specification, and the secrets with the password, where somebody collects them. -/
def sqlOpSpec (get : String → Except StoreError Connection) (connID : String) (query : Bytes) (secrets : Option (List Bytes)) :
    SQLSpec × Option (List Bytes) :=
  match get connID with
  | .error error => ({ query, err := some (.notFound connID error) }, secrets)
  | .ok c =>
    let secrets := if c.password = [] then secrets else secrets.map (· ++ [c.password])
    match BuildDSN lib c with
    | .error error => ({ query, err := some error }, secrets)
    | .ok (driver, dsn) => ({ driver := some driver, dsn, query }, secrets)

end Build

/-! ### Escaping -/

section Escaping

variable {mode : Encoding} {s : Bytes}

theorem escape_cons (c : UInt8) (s : Bytes) : escape mode (c :: s) = escapeByte mode c ++ escape mode s := rfl

theorem escapeByte_length (c : UInt8) : 1 ≤ (escapeByte mode c).length := by
  unfold escapeByte
  split
  · exact Nat.le_refl 1
  · split <;> exact Nat.le_add_left 1 _

theorem length_le_escape : s.length ≤ (escape mode s).length := by
  induction s with
  | nil => exact Nat.zero_le _
  | cons c s ih =>
    have one := @escapeByte_length mode c
    rw [escape_cons, List.length_append, List.length_cons]
    omega

/-- Only what is kept is not escaped: an escaped byte is longer. -/
theorem escape_eq_iff (user : mode ≠ .queryComponent) : escape mode s = s ↔ ∀ c ∈ s, mode.keeps c = true := by
  induction s with
  | nil => simp [escape]
  | cons c s ih =>
    rw [escape_cons, List.forall_mem_cons]
    by_cases kept : mode.keeps c = true
    · rw [← ih, escapeByte, if_pos kept]
      simp [kept]
    · have long : (escapeByte mode c).length = 3 := by
        rw [escapeByte, if_neg kept, if_neg fun space => user space.2]
        rfl
      refine iff_of_false (fun same => ?_) fun all => kept all.1
      have lengths := congrArg List.length same
      have rest := @length_le_escape mode s
      rw [List.length_append, List.length_cons] at lengths
      omega

theorem userPassword_plain : Encoding.userPassword.keeps (byte '@') = false ∧ Encoding.userPassword.keeps asterisk = false := by
  decide +kernel

theorem at_not_mem_escape : byte '@' ∉ escape .userPassword s := by
  have each : ∀ n < 256, byte '@' ∉ escapeByte .userPassword (UInt8.ofNat n) := by decide +kernel
  intro listed
  obtain ⟨c, _, inside⟩ := List.mem_flatMap.mp listed
  rw [← UInt8.ofNat_toNat (x := c)] at inside
  exact each c.toNat c.toNat_lt inside

end Escaping

/-! ### The password in the DSN -/

/-- What stands before the password: the user and a colon. -/
def opening (c : Connection) : Driver → Bytes
  | .pgx => utf8 "postgres" ++ (utf8 "://" ++ (escape .userPassword (utf8 c.login) ++ [byte ':']))
  | .mysql => utf8 c.login ++ [byte ':']
  | .sqlite => []

/-- The password stands in the DSN as it is stored. -/
def Verbatim (c : Connection) (driver : Driver) (dsn : Bytes) : Prop := ∃ rest, dsn = opening c driver ++ (c.password ++ byte '@' :: rest)

/-- What the driver leaves as it is, and what can be masked. -/
def Plainly (c : Connection) : Driver → Prop
  | .pgx => ∀ b ∈ c.password, Encoding.userPassword.keeps b = true
  | .mysql => c.login ≠ "" ∧ ¬ Completed asterisk redactMask c.password
  | .sqlite => True

section Password

variable {lib : Drivers} {c : Connection} {driver : Driver} {dsn : Bytes}

theorem utf8_ne_nil {s : String} (nonempty : s ≠ "") : utf8 s ≠ [] := by
  intro empty
  apply nonempty
  rw [← String.toByteArray_eq_empty_iff]
  exact ByteArray.ext (Array.toList_eq_nil_iff.mp empty)

theorem hostPort_ne_nil (host : String) (port default : Int) : hostPort host port default ≠ [] := by
  apply utf8_ne_nil
  intro empty
  have lengths := congrArg (fun s => s.toList.length) empty
  simp at lengths

theorem BuildDSN_pgx (built : BuildDSN lib c = .ok (.pgx, dsn)) (given : c.password ≠ []) :
    ∃ rest, dsn = opening c .pgx ++ (escape .userPassword c.password ++ byte '@' :: rest) := by
  unfold BuildDSN at built
  dsimp only at built
  split at built
  · cases built
    rw [urlString, userinfo, if_pos (.inr given), opening]
    simp only [List.append_assoc, List.cons_append, List.nil_append]
    exact ⟨_, rfl⟩
  · split at built
    · cases built
    · split at built <;> cases built

theorem BuildDSN_mysql (docs : lib.Documented) (built : BuildDSN lib c = .ok (.mysql, dsn)) (given : c.password ≠ []) :
    (c.login = "" → ∃ rest, dsn = byte 't' :: rest) ∧ (c.login ≠ "" → ∃ rest, dsn = opening c .mysql ++ (c.password ++ byte '@' :: rest)) := by
  unfold BuildDSN at built
  dsimp only at built
  split at built
  · cases built
  · split at built
    · cases built
      obtain ⟨ending, documented⟩ := docs ⟨utf8 c.login, c.password, utf8 "tcp", hostPort c.host c.port 3306, _⟩
        (utf8_ne_nil (by decide)) (hostPort_ne_nil _ _ _)
      rw [documented]
      constructor
      · intro none_
        rw [Config.credentials, if_pos (by rw [none_]; rfl)]
        exact ⟨utf8 "cp" ++ _, rfl⟩
      · intro login
        rw [Config.credentials, if_neg (utf8_ne_nil login), if_neg given, opening]
        simp only [List.append_assoc, List.cons_append, List.nil_append]
        exact ⟨_, rfl⟩
    · split at built <;> cases built

/-- An escaped password is the password only if nothing is escaped in it. -/
theorem verbatim_pgx {rest rest' password : Bytes}
    (same : escape .userPassword password ++ byte '@' :: rest = password ++ byte '@' :: rest') : escape .userPassword password = password := by
  have longer := @length_le_escape .userPassword password
  rcases List.append_eq_append_iff.mp same with ⟨more, parts, _⟩ | ⟨more, parts, tails⟩
  · have lengths := congrArg List.length parts
    rw [List.length_append] at lengths
    obtain rfl : more = [] := List.eq_nil_of_length_eq_zero (by omega)
    rw [List.append_nil] at parts
    exact parts.symm
  · cases more with
    | nil =>
      rw [List.append_nil] at parts
      exact parts
    | cons d more =>
      obtain ⟨rfl, _⟩ := List.cons.inj tails
      exact absurd (parts ▸ List.mem_append_right password (.head _)) at_not_mem_escape

/-- The password stands in the DSN as it is registered, and is masked wherever the DSN is echoed, exactly where it is
plain for the driver. -/
theorem password_masked_iff (docs : lib.Documented) (given : c.password ≠ []) (built : BuildDSN lib c = .ok (driver, dsn)) (networked : driver ≠ .sqlite) :
    (Verbatim c driver dsn ∧ ∀ get connID query secrets spec registered later text, get connID = .ok c →
      sqlOpSpec lib get connID query (some secrets) = (spec, some registered) → spec.dsn <:+: text →
        ¬ c.password <:+: redactBytes text (longestFirst (registered ++ later))) ↔ Plainly c driver := by
  have spec_ {get : String → Except StoreError Connection} {connID : String} {query : Bytes} {secrets : List Bytes} (found : get connID = .ok c) :
      sqlOpSpec lib get connID query (some secrets) = ({ driver := some driver, dsn, query }, some (secrets ++ [c.password])) := by
    rw [sqlOpSpec, found]
    simp only [built, if_neg given, Option.map_some]
  have hides (apart : ¬ Completed asterisk redactMask c.password) : ∀ get connID query secrets spec registered later text, get connID = .ok c →
      sqlOpSpec lib get connID query (some secrets) = (spec, some registered) → spec.dsn <:+: text →
        ¬ c.password <:+: redactBytes text (longestFirst (registered ++ later)) := by
    intro get connID query secrets spec registered later text found resolved _
    rw [spec_ found] at resolved
    obtain ⟨_, same⟩ := Prod.mk.inj resolved
    obtain rfl := Option.some.inj same
    rw [redactBytes_eq]
    exact masked_hides mask_stars (mem_longestFirst.mpr (by simp)) given apart text
  cases driver with
  | sqlite => exact absurd rfl networked
  | pgx =>
    obtain ⟨rest, whole⟩ := BuildDSN_pgx built given
    constructor
    · rintro ⟨⟨rest', verbatim⟩, _⟩
      have same := List.append_cancel_left (whole.symm.trans verbatim)
      exact (escape_eq_iff (by decide)).mp (verbatim_pgx same)
    · intro plain
      refine ⟨⟨rest, ?_⟩, hides (not_completed mask_stars mask_ne_nil fun marked => ?_)⟩
      · rw [whole, (escape_eq_iff (by decide)).mpr plain]
      · exact absurd (plain _ marked) (by rw [userPassword_plain.2]; decide)
  | mysql =>
    obtain ⟨anonymous, named⟩ := BuildDSN_mysql docs built given
    constructor
    · rintro ⟨⟨rest, verbatim⟩, masked⟩
      have login : c.login ≠ "" := by
        intro none_
        obtain ⟨rest', whole⟩ := anonymous none_
        rw [whole, opening, none_] at verbatim
        exact absurd (List.cons.inj verbatim).1 (by decide)
      refine ⟨login, fun completed => ?_⟩
      have two : Nontrivial UInt8 := ⟨⟨0, 1, by decide⟩⟩
      obtain ⟨more, shown⟩ := masked_shows mask_stars mask_ne_nil given completed dsn
      refine masked (fun _ => .ok c) "" [] [] _ _ [] (dsn ++ more) rfl (spec_ rfl) (List.prefix_append dsn more).isInfix ?_
      have alone : longestFirst ([] ++ [c.password] ++ []) = [c.password] := by simp [longestFirst]
      rw [redactBytes_eq, alone]
      exact shown
    · rintro ⟨login, apart⟩
      obtain ⟨rest, whole⟩ := named login
      exact ⟨⟨rest, whole⟩, hides apart⟩

end Password

/-! ### Examples -/

/-- A driver that gives neither an encoding to the database's name nor parameters. -/
def plainDrivers : Drivers where
  unmarshal _ := none
  formatDSN cfg := cfg.credentials ++ (cfg.net ++ byte '(' :: (cfg.addr ++ byte ')' :: byte '/' :: cfg.dbName))

def warehouse (type login password : String) : Connection := { id := "warehouse", type, host := "db", login, password := utf8 password }

/-- The password of a MySQL connection is masked. -/
theorem mysql_masked :
    Verbatim (warehouse "mysql" "app" "p@ss") .mysql (utf8 "app:p@ss@tcp(db:3306)/") ∧
    ∀ get connID query secrets spec registered later text, get connID = .ok (warehouse "mysql" "app" "p@ss") →
      sqlOpSpec plainDrivers get connID query (some secrets) = (spec, some registered) → spec.dsn <:+: text →
        ¬ utf8 "p@ss" <:+: redactBytes text (longestFirst (registered ++ later)) :=
  (@password_masked_iff plainDrivers (warehouse "mysql" "app" "p@ss") _ _ (fun cfg _ _ => ⟨cfg.dbName, rfl⟩) (by decide +kernel)
    (show _ = Except.ok (Driver.mysql, _) by decide +kernel) (by decide)).mpr ⟨by decide +kernel, by decide +kernel⟩

/-- The password of a PostgreSQL connection is escaped, and nothing is masked. -/
theorem postgres_echoed :
    sqlOpSpec plainDrivers (fun _ => .ok (warehouse "postgres" "app" "p@ss")) "warehouse" [] (some []) =
      ({ driver := some .pgx, dsn := utf8 "postgres://app:p%40ss@db:5432/", query := [] }, some [utf8 "p@ss"]) ∧
    ¬ Verbatim (warehouse "postgres" "app" "p@ss") .pgx (utf8 "postgres://app:p%40ss@db:5432/") ∧
    redactBytes (utf8 "postgres://app:p%40ss@db:5432/") (longestFirst [utf8 "p@ss"]) = utf8 "postgres://app:p%40ss@db:5432/" := by
  refine ⟨by decide +kernel, ?_, by decide +kernel⟩
  rintro ⟨rest, whole⟩
  have escaped : utf8 "postgres://app:p%40ss@db:5432/" = opening (warehouse "postgres" "app" "p@ss") .pgx ++
      (escape .userPassword (utf8 "p@ss") ++ byte '@' :: utf8 "db:5432/") := by decide +kernel
  have same := List.append_cancel_left (escaped.symm.trans whole)
  exact absurd (verbatim_pgx same) (by decide +kernel)

end Cronova.Secrets
