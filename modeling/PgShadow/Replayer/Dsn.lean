/-
# The connection strings of the target

`buildDSN` of `pkg/replayer/pool.go` and the string of `PoolRouter.GetPool` in
`internal/router/router.go`, with the two quoting functions. Both double single quotes,
as in SQL; in a connection string a quote is escaped by a backslash, so a value with a
quote ends at it, and the rest is read as the next key. Both leave some white space
unquoted: `dsnQuote` carriage returns, vertical tabs and form feeds, `dsnQuoteRouter`
also tabs and newlines.

The strings are fields of `ConnString`, each builder with a style of its own
(`buildDSN_render`, `connStr_render`), so `credentials_survive_iff` is its round trip.

Key definitions: `dsnQuote`, `dsnQuoteRouter`, `buildDSN`, `PoolConfig.connStr`, `DsnBuilder`.
Key theorems: `buildDSN_render`, `connStr_render`, `credentials_survive_iff`.
-/
import PgShadow.Config.Load
import PgShadow.Go.Runes
import PgShadow.Lib.ConnString

namespace PgShadow

open ConnString

/-! ### Quoting -/

/-- Quotes and backslashes doubled, between quotes. -/
def quoteDoubled (s : Bytes) : Bytes :=
  [39] ++ s.flatMap (fun c => if c = 39 then [39, 39] else if c = 92 then [92, 92] else [c]) ++ [39]

def dsnSpecial (c : ℕ) : Bool := c == 32 || c == 39 || c == 92 || c == 9 || c == 10 || c == 58 || c == 61

def dsnQuote (s : Bytes) : Bytes :=
  let needsQuote := (runes s).any dsnSpecial
  if !needsQuote then s else quoteDoubled s

def dsnSpecialRouter (c : ℕ) : Bool := c == 32 || c == 39 || c == 92 || c == 61

def dsnQuoteRouter (s : Bytes) : Bytes :=
  let needsQuote := (runes s).any dsnSpecialRouter
  if !needsQuote && s != [] then s else quoteDoubled s

/-! ### The replayer's string -/

/-- `replayer.Config` with its TLS settings. -/
structure DsnConfig extends ReplayerSection where
  /-- disable, require, verify-ca or verify-full -/
  sslMode : Bytes := []
  sslRootCert : Bytes := []

def forbiddenPasswordEnvPrefixes : List Bytes :=
  ["AWS_", "AZURE_", "GCP_", "HEROKU_", "DATABASE_", "DB_", "MYSQL_", "MONGODB_", "REDIS_", "SECRET_",
    "TOKEN_"].map bytes

/-- The name of a password variable and the start it may not have. -/
structure ForbiddenEnvName where
  name : Bytes
  start : Bytes
deriving DecidableEq

def validatePasswordEnvName (U : CaseTable) (name : Bytes) : Option ForbiddenEnvName :=
  if name = [] then none
  else
    let upperName := toUpper U name
    (forbiddenPasswordEnvPrefixes.find? fun start => start.isPrefixOf upperName).map fun start => ⟨name, start⟩

/-- `buildDSN`; `getenv` is `os.Getenv`. -/
def buildDSN (U : CaseTable) (getenv : Bytes → Bytes) (cfg : DsnConfig) : Except ForbiddenEnvName Bytes :=
  let host := if cfg.targetHost = [] then bytes "localhost" else cfg.targetHost
  let port := if cfg.targetPort = 0 then 5432 else cfg.targetPort
  let dsn := bytes "host=" ++ dsnQuote host ++ bytes " port=" ++ formatInt port
  let dsn := if cfg.targetDatabase ≠ [] then dsn ++ bytes " dbname=" ++ dsnQuote cfg.targetDatabase else dsn
  let dsn := if cfg.targetUser ≠ [] then dsn ++ bytes " user=" ++ dsnQuote cfg.targetUser else dsn
  let withPassword : Except ForbiddenEnvName Bytes :=
    if cfg.passwordEnv ≠ [] then
      match validatePasswordEnvName U cfg.passwordEnv with
      | some err => .error err
      | none =>
        let pw := getenv cfg.passwordEnv
        .ok (if pw ≠ [] then dsn ++ bytes " password=" ++ dsnQuote pw else dsn)
    else .ok dsn
  withPassword.map fun dsn =>
    let sslmode := if cfg.sslMode = [] then bytes "require" else cfg.sslMode
    let dsn := dsn ++ bytes " sslmode=" ++ sslmode
    if cfg.sslRootCert ≠ [] then dsn ++ bytes " sslrootcert=" ++ dsnQuote cfg.sslRootCert else dsn

/-! ### The router's string -/

/-- `router.PoolConfig`. -/
structure PoolConfig where
  host : Bytes
  port : ℤ
  user : Bytes
  passwordEnv : Bytes
  maxConns : ℤ
  minConns : ℤ
  sslMode : Bytes

/-- `connStr` of `PoolRouter.GetPool`. -/
def PoolConfig.connStr (getenv : Bytes → Bytes) (template : PoolConfig) (database : Bytes) : Bytes :=
  let connStr := bytes "host=" ++ dsnQuoteRouter template.host ++ bytes " port=" ++ formatInt template.port ++
    bytes " user=" ++ dsnQuoteRouter template.user ++ bytes " dbname=" ++ dsnQuoteRouter database ++
    bytes " pool_max_conns=" ++ formatInt template.maxConns ++ bytes " pool_min_conns=" ++ formatInt template.minConns
  let connStr :=
    if template.passwordEnv ≠ [] then
      let pw := getenv template.passwordEnv
      if pw ≠ [] then connStr ++ bytes " password=" ++ dsnQuoteRouter pw else connStr
    else connStr
  if template.sslMode ≠ [] then connStr ++ bytes " sslmode=" ++ dsnQuoteRouter template.sslMode else connStr

/-! ### The styles -/

def dsnStyle : Style := ⟨fun b => dsnSpecial b.toNat, false, by decide⟩

def routerStyle : Style := ⟨fun b => dsnSpecialRouter b.toNat, true, by decide⟩

theorem quoteDoubled_eq (s : Bytes) : quoteDoubled s = 39 :: (escape s ++ [39]) := by
  have hchar : ∀ c : UInt8, (if c = 39 then [39, 39] else if c = 92 then [92, 92] else [c]) =
      if c = 39 ∨ c = 92 then [c, c] else [c] := by
    intro c
    by_cases hquote : c = 39
    · rw [if_pos hquote, if_pos (.inl hquote), hquote]
    · by_cases hslash : c = 92
      · rw [if_neg hquote, if_pos hslash, if_pos (.inr hslash), hslash]
      · rw [if_neg hquote, if_neg hslash, if_neg (not_or.mpr ⟨hquote, hslash⟩)]
  unfold quoteDoubled escape
  rw [funext hchar]
  rfl

theorem dsnStyle_quotes (s : Bytes) : dsnStyle.quotes s = (runes s).any dsnSpecial := by
  rw [any_runes (by intro r hr; simp [dsnSpecial] at hr; omega)]
  simp [Style.quotes, dsnStyle]

theorem routerStyle_quotes (s : Bytes) : routerStyle.quotes s = ((runes s).any dsnSpecialRouter || s.isEmpty) := by
  rw [any_runes (by intro r hr; simp [dsnSpecialRouter] at hr; omega)]
  simp [Style.quotes, routerStyle]

theorem dsnQuote_eq (s : Bytes) : dsnQuote s = dsnStyle.quote s := by
  unfold dsnQuote Style.quote
  rw [dsnStyle_quotes, quoteDoubled_eq]
  cases (runes s).any dsnSpecial <;> rfl

theorem dsnQuoteRouter_eq (s : Bytes) : dsnQuoteRouter s = routerStyle.quote s := by
  unfold dsnQuoteRouter Style.quote
  rw [routerStyle_quotes, quoteDoubled_eq]
  rcases s with _ | ⟨c, s⟩
  · cases (runes []).any dsnSpecialRouter <;> rfl
  · cases (runes (c :: s)).any dsnSpecialRouter <;> rfl

/-! ### The fields -/

/-- A setting that is written if it has a value. -/
def optional (k : String) (v : Bytes) : List Setting := if v = [] then [] else [(bytes k, v)]

/-- The value of the variable with this name, if there is a name. -/
def passwordOf (getenv : Bytes → Bytes) (name : Bytes) : Bytes := if name = [] then [] else getenv name

/-- What `buildDSN` writes. -/
def DsnConfig.fields (getenv : Bytes → Bytes) (cfg : DsnConfig) : List Setting :=
  [(bytes "host", if cfg.targetHost = [] then bytes "localhost" else cfg.targetHost),
    (bytes "port", formatInt (if cfg.targetPort = 0 then 5432 else cfg.targetPort))] ++
  optional "dbname" cfg.targetDatabase ++ optional "user" cfg.targetUser ++
  optional "password" (passwordOf getenv cfg.passwordEnv) ++
  [(bytes "sslmode", if cfg.sslMode = [] then bytes "require" else cfg.sslMode)] ++
  optional "sslrootcert" cfg.sslRootCert

/-- What `GetPool` writes. -/
def PoolConfig.fields (getenv : Bytes → Bytes) (template : PoolConfig) (database : Bytes) : List Setting :=
  [(bytes "host", template.host), (bytes "port", formatInt template.port), (bytes "user", template.user),
    (bytes "dbname", database), (bytes "pool_max_conns", formatInt template.maxConns),
    (bytes "pool_min_conns", formatInt template.minConns)] ++
  optional "password" (passwordOf getenv template.passwordEnv) ++ optional "sslmode" template.sslMode

/-- The characters of numbers and of the TLS modes. -/
def isWordByte (c : UInt8) : Bool := c == 45 || (48 ≤ c && c ≤ 57) || (97 ≤ c && c ≤ 122)

theorem isWordByte_spec {c : UInt8} (h : isWordByte c = true) :
    ConnString.isBlank c = false ∧ c ≠ 39 ∧ dsnStyle.trigger c = false ∧ routerStyle.trigger c = false := by
  have hbyte := forall_byte (p := fun c => isWordByte c = true →
    ConnString.isBlank c = false ∧ c ≠ 39 ∧ dsnStyle.trigger c = false ∧ routerStyle.trigger c = false)
    (by decide +kernel)
  exact hbyte c h

/-- A style that quotes none of the plain characters. -/
def IsDsnStyle (q : Style) : Prop := ∀ c, isWordByte c = true → q.trigger c = false

theorem dsnStyle_isDsn : IsDsnStyle dsnStyle := fun _ h => (isWordByte_spec h).2.2.1

theorem routerStyle_isDsn : IsDsnStyle routerStyle := fun _ h => (isWordByte_spec h).2.2.2

section Plain

variable {q : Style} {v : Bytes} (hne : v ≠ []) (hv : v.all isWordByte = true)
include hne hv

theorem quotes_plain (hq : IsDsnStyle q) : q.quotes v = false := by
  have htrigger : v.any q.trigger = false := by
    rw [List.any_eq_false]
    intro c hc
    rw [hq c (List.all_eq_true.mp hv c hc)]
    decide
  unfold Style.quotes
  rw [htrigger, List.isEmpty_eq_false_iff.mpr hne]
  rfl

theorem quote_plain (hq : IsDsnStyle q) : q.quote v = v := by
  unfold Style.quote
  rw [quotes_plain hne hv hq]
  rfl

theorem safe_plain : q.Safe v := by
  have hchar : ∀ c ∈ v, ConnString.isBlank c = false ∧ c ≠ 39 := by
    intro c hc
    obtain ⟨hblank, hquote, -⟩ := isWordByte_spec (List.all_eq_true.mp hv c hc)
    exact ⟨hblank, hquote⟩
  exact ⟨fun hmem => (hchar 39 hmem).2 rfl, .inr ⟨hne, fun c hc => (hchar c hc).1⟩⟩

end Plain

theorem formatUint_plain (n : ℕ) : formatUint 10 n ≠ [] ∧ (formatUint 10 n).all isWordByte = true := by
  constructor
  · unfold formatUint
    rw [Ne, List.map_eq_nil_iff]
    exact Nat.toDigits_ne_nil
  · rw [List.all_eq_true]
    intro c hc
    obtain ⟨hlow, hhigh⟩ := digit_of_mem_formatUint hc
    simp only [isWordByte, Bool.or_eq_true, Bool.and_eq_true, decide_eq_true_eq, UInt8.le_iff_toNat_le]
    exact .inl (.inr ⟨hlow, hhigh⟩)

theorem formatInt_plain (n : ℤ) : formatInt n ≠ [] ∧ (formatInt n).all isWordByte = true := by
  obtain ⟨hne, hall⟩ := formatUint_plain n.natAbs
  unfold formatInt
  split_ifs
  · refine ⟨List.cons_ne_nil _ _, ?_⟩
    rw [List.all_cons, hall]
    decide
  · exact ⟨hne, hall⟩

/-! ### The strings are their fields -/

/-- A field at the end of a string. -/
theorem render_field (q : Style) {fs : List Setting} (hfs : fs ≠ []) {k : String} {text : Bytes}
    (htext : text = 32 :: (bytes k ++ [61])) (v : Bytes) :
    q.render (fs ++ [(bytes k, v)]) = q.render fs ++ text ++ q.quote v := by
  rw [q.render_concat _ hfs, htext]
  simp

theorem render_optional (q : Style) {fs : List Setting} (hfs : fs ≠ []) {k : String} {text : Bytes}
    (htext : text = 32 :: (bytes k ++ [61])) (v : Bytes) :
    q.render (fs ++ optional k v) = if v ≠ [] then q.render fs ++ text ++ q.quote v else q.render fs := by
  unfold optional
  by_cases hv : v = []
  · rw [if_pos hv, if_neg (not_not.mpr hv), List.append_nil]
  · rw [if_neg hv, if_pos hv, render_field q hfs htext]

/-- The TLS mode that `buildDSN` writes. -/
theorem sslMode_plain {mode : Bytes} (hmode : mode.all isWordByte = true) :
    (if mode = [] then bytes "require" else mode) ≠ [] ∧
      (if mode = [] then bytes "require" else mode).all isWordByte = true := by
  by_cases hnil : mode = []
  · rw [if_pos hnil]
    decide +kernel
  · rw [if_neg hnil]
    exact ⟨hnil, hmode⟩

/-- The start of both strings. -/
theorem render_host_port {q : Style} (hq : IsDsnStyle q) (host : Bytes) (port : ℤ) :
    q.render [(bytes "host", host), (bytes "port", formatInt port)] =
      bytes "host=" ++ q.quote host ++ bytes " port=" ++ formatInt port := by
  obtain ⟨hne, hall⟩ := formatInt_plain port
  have hconcat := render_field q (List.cons_ne_nil (bytes "host", host) []) (k := "port") rfl (formatInt port)
  rw [quote_plain hne hall hq] at hconcat
  exact hconcat

theorem buildDSN_render {U : CaseTable} {getenv : Bytes → Bytes} {cfg : DsnConfig} {s : Bytes}
    (hmode : cfg.sslMode.all isWordByte = true) (h : buildDSN U getenv cfg = .ok s) :
    s = dsnStyle.render (cfg.fields getenv) := by
  obtain ⟨hne, hall⟩ := sslMode_plain hmode
  unfold DsnConfig.fields
  rw [render_optional _ (by simp) (rfl : bytes " sslrootcert=" = _),
    render_field _ (by simp) (rfl : bytes " sslmode=" = _), quote_plain hne hall dsnStyle_isDsn,
    render_optional _ (by simp) (rfl : bytes " password=" = _), render_optional _ (by simp) (rfl : bytes " user=" = _),
    render_optional _ (by simp) (rfl : bytes " dbname=" = _), render_host_port dsnStyle_isDsn]
  unfold buildDSN at h
  simp only [dsnQuote_eq] at h
  by_cases hname : cfg.passwordEnv = []
  · rw [if_neg (not_not.mpr hname)] at h
    have hpw : passwordOf getenv cfg.passwordEnv = [] := if_pos hname
    rw [hpw, if_neg (not_not.mpr rfl)]
    exact (Except.ok.inj h).symm
  · rw [if_pos hname] at h
    have hpw : passwordOf getenv cfg.passwordEnv = getenv cfg.passwordEnv := if_neg hname
    rw [hpw]
    rcases hvalid : validatePasswordEnvName U cfg.passwordEnv with _ | err
    · rw [hvalid] at h
      exact (Except.ok.inj h).symm
    · rw [hvalid] at h
      cases h

theorem connStr_render (getenv : Bytes → Bytes) (template : PoolConfig) (database : Bytes) :
    template.connStr getenv database = routerStyle.render (template.fields getenv database) := by
  obtain ⟨hmaxNe, hmaxAll⟩ := formatInt_plain template.maxConns
  obtain ⟨hminNe, hminAll⟩ := formatInt_plain template.minConns
  have hhead : template.fields getenv database =
      [(bytes "host", template.host), (bytes "port", formatInt template.port)] ++ [(bytes "user", template.user)] ++
      [(bytes "dbname", database)] ++ [(bytes "pool_max_conns", formatInt template.maxConns)] ++
      [(bytes "pool_min_conns", formatInt template.minConns)] ++
      optional "password" (passwordOf getenv template.passwordEnv) ++ optional "sslmode" template.sslMode := rfl
  rw [hhead, render_optional _ (by simp) (rfl : bytes " sslmode=" = _),
    render_optional _ (by simp) (rfl : bytes " password=" = _),
    render_field _ (by simp) (rfl : bytes " pool_min_conns=" = _), quote_plain hminNe hminAll routerStyle_isDsn,
    render_field _ (by simp) (rfl : bytes " pool_max_conns=" = _), quote_plain hmaxNe hmaxAll routerStyle_isDsn,
    render_field _ (by simp) (rfl : bytes " dbname=" = _), render_field _ (by simp) (rfl : bytes " user=" = _),
    render_host_port routerStyle_isDsn]
  unfold PoolConfig.connStr
  simp only [dsnQuoteRouter_eq]
  by_cases hname : template.passwordEnv = []
  · have hpw : passwordOf getenv template.passwordEnv = [] := if_pos hname
    rw [hpw, if_neg (not_not.mpr hname), if_neg (not_not.mpr (rfl : ([] : Bytes) = []))]
  · have hpw : passwordOf getenv template.passwordEnv = getenv template.passwordEnv := if_neg hname
    rw [hpw, if_pos hname]

/-! ### Credentials -/

/-- The keys whose values are the configuration's own strings. -/
def credentialKeys : List String := ["host", "dbname", "user", "password", "sslrootcert"]

def isCredential (k : Bytes) : Bool := credentialKeys.any (bytes · == k)

/-- The two builders. -/
inductive DsnBuilder
  | buildDSN (cfg : DsnConfig)
  | getPool (template : PoolConfig) (database : Bytes)

namespace DsnBuilder

def build (U : CaseTable) (getenv : Bytes → Bytes) : DsnBuilder → Except ForbiddenEnvName Bytes
  | buildDSN cfg => PgShadow.buildDSN U getenv cfg
  | getPool template database => .ok (template.connStr getenv database)

def sslMode : DsnBuilder → Bytes
  | buildDSN cfg => cfg.sslMode
  | getPool template _ => template.sslMode

/-- The builder's quoting function puts the value in quotes. -/
def needsQuote : DsnBuilder → Bytes → Bool
  | buildDSN _, v => (runes v).any dsnSpecial
  | getPool _ _, v => (runes v).any dsnSpecialRouter || v.isEmpty

/-- The settings it writes. -/
def fields (getenv : Bytes → Bytes) : DsnBuilder → List Setting
  | buildDSN cfg => cfg.fields getenv
  | getPool template database => template.fields getenv database

/-- Those with the configuration's own strings. -/
def credentials (getenv : Bytes → Bytes) (b : DsnBuilder) : List Setting :=
  (b.fields getenv).filter fun f => isCredential f.1

def style : DsnBuilder → Style
  | buildDSN _ => dsnStyle
  | getPool _ _ => routerStyle

theorem needsQuote_eq (b : DsnBuilder) (v : Bytes) : b.needsQuote v = b.style.quotes v := by
  cases b with
  | buildDSN cfg => exact (dsnStyle_quotes v).symm
  | getPool template database => exact (routerStyle_quotes v).symm

theorem build_render {U : CaseTable} {getenv : Bytes → Bytes} {b : DsnBuilder} {s : Bytes}
    (hmode : b.sslMode.all isWordByte = true) (h : b.build U getenv = .ok s) :
    s = b.style.render (b.fields getenv) := by
  cases b with
  | buildDSN cfg => exact buildDSN_render hmode h
  | getPool template database =>
    obtain rfl := Except.ok.inj h
    exact connStr_render getenv template database

end DsnBuilder

def dsnKeys : List Bytes := ["host", "port", "dbname", "user", "password", "sslmode", "sslrootcert"].map bytes

def routerKeys : List Bytes :=
  ["host", "port", "user", "dbname", "pool_max_conns", "pool_min_conns", "password", "sslmode"].map bytes

theorem dsnKeys_spec : dsnKeys.Nodup ∧ ∀ k ∈ dsnKeys, IsKey k := by decide +kernel

theorem routerKeys_spec : routerKeys.Nodup ∧ ∀ k ∈ routerKeys, IsKey k := by decide +kernel

theorem isCredential_of_mem {k : String} (hk : k ∈ credentialKeys) : isCredential (bytes k) = true :=
  List.any_eq_true.mpr ⟨k, hk, beq_self_eq_true _⟩

theorem keys_optional (k : String) (v : Bytes) : ((optional k v).map Prod.fst).Sublist [bytes k] := by
  unfold optional
  split_ifs
  · exact List.nil_sublist _
  · exact .refl _

theorem mem_optional {k : String} {v : Bytes} {f : Setting} (hf : f ∈ optional k v) : f = (bytes k, v) ∧ v ≠ [] := by
  unfold optional at hf
  split_ifs at hf with hv
  · cases hf
  · exact ⟨List.mem_singleton.mp hf, hv⟩

namespace DsnBuilder

variable (getenv : Bytes → Bytes) (b : DsnBuilder)

theorem fields_keys : ∃ keys : List Bytes, ((b.fields getenv).map Prod.fst).Sublist keys ∧ keys.Nodup ∧
    ∀ k ∈ keys, IsKey k := by
  cases b with
  | buildDSN cfg =>
    refine ⟨dsnKeys, ?_, dsnKeys_spec⟩
    change ((cfg.fields getenv).map Prod.fst).Sublist (["host", "port"].map bytes ++ [bytes "dbname"] ++
      [bytes "user"] ++ [bytes "password"] ++ [bytes "sslmode"] ++ [bytes "sslrootcert"])
    unfold DsnConfig.fields
    simp only [List.map_append]
    exact (((((List.Sublist.refl _).append (keys_optional ..)).append (keys_optional ..)).append
      (keys_optional ..)).append (.refl _)).append (keys_optional ..)
  | getPool template database =>
    refine ⟨routerKeys, ?_, routerKeys_spec⟩
    change ((template.fields getenv database).map Prod.fst).Sublist (["host", "port", "user", "dbname",
      "pool_max_conns", "pool_min_conns"].map bytes ++ [bytes "password"] ++ [bytes "sslmode"])
    unfold PoolConfig.fields
    simp only [List.map_append]
    exact ((List.Sublist.refl _).append (keys_optional ..)).append (keys_optional ..)

/-- A setting is a credential that is not left out, or a number or a word. -/
theorem fields_cases (hmode : b.sslMode.all isWordByte = true) : ∀ f ∈ b.fields getenv,
    isCredential f.1 = true ∧ (b.style.quotes f.2 = true ∨ f.2 ≠ []) ∨ f.2 ≠ [] ∧ f.2.all isWordByte = true := by
  intro f hf
  cases b with
  | buildDSN cfg =>
    have hoptional : ∀ {k : String} {v : Bytes}, k ∈ credentialKeys → f ∈ optional k v →
        isCredential f.1 = true ∧ (dsnStyle.quotes f.2 = true ∨ f.2 ≠ []) := by
      intro k v hk hf
      obtain ⟨rfl, hv⟩ := mem_optional hf
      exact ⟨isCredential_of_mem hk, .inr hv⟩
    simp only [fields, DsnConfig.fields, List.mem_append, List.mem_cons, List.not_mem_nil, or_false] at hf
    obtain (((((rfl | rfl) | hf) | hf) | hf) | rfl) | hf := hf
    · refine .inl ⟨isCredential_of_mem (by simp [credentialKeys]), .inr ?_⟩
      by_cases hhost : cfg.targetHost = []
      · rw [if_pos hhost]
        decide +kernel
      · rwa [if_neg hhost]
    · exact .inr (formatInt_plain _)
    · exact .inl (hoptional (by simp [credentialKeys]) hf)
    · exact .inl (hoptional (by simp [credentialKeys]) hf)
    · exact .inl (hoptional (by simp [credentialKeys]) hf)
    · exact .inr (sslMode_plain hmode)
    · exact .inl (hoptional (by simp [credentialKeys]) hf)
  | getPool template database =>
    -- the router's style quotes the empty value
    have hquotes : ∀ v : Bytes, routerStyle.quotes v = true ∨ v ≠ [] := by
      intro v
      by_cases hv : v = []
      · exact .inl (by rw [hv]; rfl)
      · exact .inr hv
    have hcred : ∀ {k : String} {v : Bytes}, k ∈ credentialKeys →
        isCredential (bytes k) = true ∧ (routerStyle.quotes v = true ∨ v ≠ []) :=
      fun hk => ⟨isCredential_of_mem hk, hquotes _⟩
    simp only [fields, PoolConfig.fields, List.mem_append, List.mem_cons, List.not_mem_nil, or_false] at hf
    obtain ((rfl | rfl | rfl | rfl | rfl | rfl) | hf) | hf := hf
    · exact .inl (hcred (by simp [credentialKeys]))
    · exact .inr (formatInt_plain _)
    · exact .inl (hcred (by simp [credentialKeys]))
    · exact .inl (hcred (by simp [credentialKeys]))
    · exact .inr (formatInt_plain _)
    · exact .inr (formatInt_plain _)
    · obtain ⟨rfl, -⟩ := mem_optional hf
      exact .inl (hcred (by simp [credentialKeys]))
    · obtain ⟨rfl, hne⟩ := mem_optional hf
      exact .inr ⟨hne, hmode⟩

end DsnBuilder

/-- **A connection string carries its credentials** if and only if none has a single quote
and those that are not quoted have no white space. -/
theorem credentials_survive_iff (U : CaseTable) (getenv : Bytes → Bytes) (b : DsnBuilder)
    (hmode : b.sslMode.all isWordByte = true) {s : Bytes} (hs : b.build U getenv = .ok s) :
    RoundTrips (b.credentials getenv) (b.fields getenv) s ↔
      ∀ f ∈ b.credentials getenv, 39 ∉ f.2 ∧ (b.needsQuote f.2 = true ∨ ∀ c ∈ f.2, ConnString.isBlank c = false) := by
  obtain ⟨keys, hsub, hnodup, hkeys⟩ := b.fields_keys getenv
  have hcred : b.credentials getenv ⊆ b.fields getenv := fun f hf => List.mem_of_mem_filter hf
  have hne : ∀ f ∈ b.credentials getenv, b.style.quotes f.2 = true ∨ f.2 ≠ [] :=
    fun f hf => (b.fields_cases getenv hmode f (hcred hf)).elim (·.2) (.inr ·.1)
  rw [b.build_render hmode hs, b.style.roundTrips_iff (fun f hf => hkeys _ (hsub.subset (List.mem_map_of_mem hf)))
    (hsub.nodup hnodup) hcred hne]
  · refine forall₂_congr fun f hf => ?_
    rw [b.needsQuote_eq]
    exact and_congr_right fun _ => or_congr_right' fun hquote => and_iff_right ((hne f hf).resolve_left hquote)
  · intro f hf
    obtain ⟨hkey, -⟩ | ⟨hvalue, hall⟩ := b.fields_cases getenv hmode f hf
    · exact .inl (List.mem_filter.mpr ⟨hf, hkey⟩)
    · exact .inr (safe_plain hvalue hall)

theorem spaced_password_read :
    let getenv : Bytes → Bytes := fun _ => bytes "open sesame\\"
    let template : PoolConfig := ⟨bytes "shadow", 5432, bytes "u", bytes "PGSHADOW_DB_PASSWORD", 100, 20, []⟩
    let b := DsnBuilder.getPool template (bytes "db")
    b.build ⟨id, id⟩ getenv = .ok (bytes ("host=shadow port=5432 user=u dbname=db pool_max_conns=100 " ++
      "pool_min_conns=20 password='open sesame\\\\'")) ∧
    RoundTrips (b.credentials getenv) (b.fields getenv) (bytes ("host=shadow port=5432 user=u dbname=db " ++
      "pool_max_conns=100 pool_min_conns=20 password='open sesame\\\\'")) :=
  ⟨by decide +kernel,
    (credentials_survive_iff ⟨id, id⟩ _ _ (by decide +kernel) (by decide +kernel)).mpr (by decide +kernel)⟩

/-- A password with a quote is cut there; the rest of it takes the next key, so the TLS mode is lost. -/
theorem quoted_password_cut :
    let getenv : Bytes → Bytes := fun _ => bytes "it's"
    let b := DsnBuilder.buildDSN
      { targetHost := bytes "shadow", targetDatabase := bytes "db", targetUser := bytes "u"
        sslRootCert := bytes "/ca" }
    ∃ s kvs, b.build ⟨id, id⟩ getenv = .ok s ∧ parse s = some kvs ∧
      valueOf kvs (bytes "password") = some (bytes "it") ∧ valueOf kvs (bytes "sslmode") = none ∧
      ¬RoundTrips (b.credentials getenv) (b.fields getenv) s := by
  refine ⟨bytes "host=shadow port=5432 dbname=db user=u password='it''s' sslmode=require sslrootcert=/ca",
    [("host", "shadow"), ("port", "5432"), ("dbname", "db"), ("user", "u"), ("password", "it"),
      ("'s' sslmode", "require"), ("sslrootcert", "/ca")].map (Prod.map bytes bytes),
    by decide +kernel, by decide +kernel, by decide +kernel, by decide +kernel, ?_⟩
  intro ⟨kvs, hparse, hvalues, _⟩
  have hpassword := hvalues (bytes "password", bytes "it's") (by decide +kernel)
  have hread : (some kvs).bind (valueOf · (bytes "password")) = some (bytes "it's") := hpassword
  rw [← hparse] at hread
  exact absurd hread (by decide +kernel)

end PgShadow
