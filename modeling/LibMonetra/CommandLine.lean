import LibMonetra.Cli
import LibMonetra.Load
import LibMonetra.Foundation.Layers

/-!
# The command line of `monetra_cli`

The options are read one after the other into a `cli_opts_t`, the dictionaries of the action, the card and
the manual pairs are merged, and one dictionary for each transaction is made of the result.
`M_getopt_parse` and the random generator are outside, as for `monetra_load`; the tables of actions and
test cards may hold anything.
-/

namespace LibMonetra.CommandLine

open Foundation
open Load (MInt64 RandCall randRange paddedDecimal)

def backslash : UInt8 := 0x5c

/-- A dictionary of the command line: keys are compared ignoring case, each has one value, and no value is
`NULL`. -/
structure Kvs extends Dict where
  caseless : casecmp = true
  valued : ∀ entry ∈ entries, entry.2 ≠ none

namespace Kvs

/-- `M_hash_dict_create(8, 75, M_HASH_DICT_CASECMP)`; that keys are ordered only shapes the entries. -/
def create : Kvs where
  toDict := .create
  caseless := rfl
  valued := nofun

/-- `M_hash_dict_insert` with a value. -/
def insert (kvs : Kvs) (entry : Bytes × Bytes) : Kvs where
  toDict := kvs.toDict.insert entry.1 (some entry.2)
  caseless := (kvs.insert_flags entry.1 (some entry.2)).1.trans kvs.caseless
  valued := by
    intro member hmember
    by_cases hpresent : kvs.hasKey entry.1 = true
    · have hentries := kvs.insert_present (some entry.2) kvs.plain.1 hpresent
      obtain ⟨old, hold, rfl⟩ := List.mem_map.mp (hentries ▸ hmember)
      split
      · exact Option.some_ne_none _
      · exact kvs.valued old hold
    · have hentries := kvs.insert_absent (some entry.2) (Bool.eq_false_iff.mpr hpresent)
      rcases List.mem_append.mp (hentries ▸ hmember) with hold | hnew
      · exact kvs.valued member hold
      · rw [List.mem_singleton.mp hnew]
        exact Option.some_ne_none _

/-- The pairs of a dictionary, as its enumeration yields them. -/
def pairs (kvs : Kvs) : List (Bytes × Bytes) := kvs.entries.map fun entry => (entry.1, entry.2.getD [])

/-- `M_hash_dict_get_direct`. -/
def get (kvs : Kvs) (key : Bytes) : Option Bytes := kvs.getDirect key

end Kvs

/-- `M_tls_verify_level_t`. -/
inductive TlsVerify
  | none
  | certOnly
  | certFuzzy
  | full
  deriving DecidableEq, Repr

/-- The long names of the options with a string, as `cli_string_cb` compares them. -/
inductive StringOpt
  | username
  | password
  | host
  | keyfile
  | certfile
  | cadir
  | certValidation
  | kvs
  | rkeys
  | card
  | actions
  | randomAmount
  deriving DecidableEq, Repr

/-- The long names of the options with an integer. -/
inductive IntegerOpt
  | port
  | dup
  deriving DecidableEq, Repr

/-- The long names of the options with a boolean. -/
inductive BoolOpt
  | help
  | serial
  | pinKsn
  | trace
  deriving DecidableEq, Repr

/-- A value as `M_getopt_parse` hands it to the callback of its option. The integer of an option that does
not require one may be missing. -/
inductive Arg
  | nonopt (option : Bytes)
  | string (longOpt : StringOpt) (string : Bytes)
  | integer (longOpt : IntegerOpt) (integer : Option MInt64)
  | boolean (longOpt : BoolOpt) (boolean : Bool)

/-- What is used from outside: the C support library, the tables `ACTIONS` and `CARDS`, and the place for
`M_strdup_unquote` with `"` and a backslash. -/
structure Platform where
  lib : Mstdlib
  strdupUnquote : Bytes → Bytes
  readDecimal : DecimalReader
  actions : List (Bytes × Bytes)
  cards : List (Bytes × Bytes)

/-- `cli_opts_t`. -/
structure CliOpts where
  username : Bytes
  password : Bytes
  host : Bytes
  port : ℕ
  keyfile : Option Bytes
  certfile : Option Bytes
  cadir : Option Bytes
  certvalidation : TlsVerify
  actionKvs : Option Bytes
  sendPinksn : Bool
  card : Kvs
  manKvs : Kvs
  removeKeys : List Bytes
  kvs : Kvs
  dup : ℕ
  minAmount : ℕ
  maxAmount : ℕ
  sendSerial : Bool
  help : Bool
  portSet : Bool
  enableTrace : Bool

/-- `DEFAULT_PORT_USER`. -/
def defaultPortUser : ℕ := 8665

/-- `DEFAULT_PORT_ADMIN`. -/
def defaultPortAdmin : ℕ := 8666

section Options

variable (platform : Platform)

/-- The loop of `cli_opts_load_kvs` over the parts of a string: a part that cannot be split ends it, a part
that is no pair is passed over. -/
def cliOptsLoadKvsLoop : List Bytes → Kvs → Kvs
  | [], kvs => kvs
  | part :: parts, kvs =>
    match platform.lib.strExplodeQuoted equals (platform.strdupUnquote part) dquote backslash 0 with
    | none => kvs
    | some [key, value] =>
      cliOptsLoadKvsLoop parts (kvs.insert (platform.strdupUnquote key, platform.strdupUnquote value))
    | some _ => cliOptsLoadKvsLoop parts kvs

/-- `cli_opts_load_kvs`. -/
def cliOptsLoadKvs (kvs : Kvs) (string : Bytes) : Kvs :=
  match platform.lib.strExplodeQuoted comma string dquote backslash 0 with
  | none => kvs
  | some parts => cliOptsLoadKvsLoop platform parts kvs

/-- `cli_opts_load_rkeys`. -/
def cliOptsLoadRkeys (keys : List Bytes) (string : Bytes) : List Bytes :=
  keys ++ (platform.lib.strExplodeQuoted comma string dquote backslash 0).getD []

/-- `cli_nonopt_cb`. -/
def cliNonoptCb (option : Bytes) (opts : CliOpts) : Option CliOpts :=
  (platform.actions.find? fun action => strCaseeq option action.1).map fun action =>
    { opts with actionKvs := some action.2 }

/-- `cli_integer_cb`. -/
def cliIntegerCb (longOpt : IntegerOpt) (integer : Option MInt64) (opts : CliOpts) : Option CliOpts :=
  match integer with
  | none => none
  | some integer =>
    if integer.val < 0 then none
    else match longOpt with
      | .port => some { opts with port := integer.val.toNat % 2 ^ 16, portSet := true }
      | .dup => some { opts with dup := integer.val.toNat }

/-- The level of `--cert_validation`. -/
def certValidation (string : Bytes) : Option TlsVerify :=
  if strCaseeq string (ascii "none") then some .none
  else if strCaseeq string (ascii "cert_only") ∨ strCaseeq string (ascii "only") then some .certOnly
  else if strCaseeq string (ascii "cert_fuzzy") ∨ strCaseeq string (ascii "fuzzy") then some .certFuzzy
  else if strCaseeq string (ascii "full") then some .full
  else none

/-- `cli_string_cb`. -/
def cliStringCb (longOpt : StringOpt) (string : Bytes) (opts : CliOpts) : Option CliOpts :=
  if longOpt = .username then some { opts with username := string }
  else if longOpt = .password then some { opts with password := string }
  else if string = [] then none
  else match longOpt with
    | .host => some { opts with host := string }
    | .keyfile => some { opts with keyfile := some string }
    | .certfile => some { opts with certfile := some string }
    | .cadir => some { opts with cadir := some string }
    | .certValidation => (certValidation string).map fun level => { opts with certvalidation := level }
    | .kvs => some { opts with manKvs := cliOptsLoadKvs platform opts.manKvs string }
    | .rkeys => some { opts with removeKeys := cliOptsLoadRkeys platform opts.removeKeys string }
    | .card =>
      (platform.cards.find? fun card => strCaseeq string card.1).map fun card =>
        { opts with card := cliOptsLoadKvs platform opts.card card.2 }
    | .actions => some { opts with help := true }
    | .randomAmount =>
      (cliParseRandomAmount platform.readDecimal string).map fun bounds =>
        { opts with minAmount := bounds.1, maxAmount := bounds.2 }
    | .username | .password => none

/-- `cli_bool_cb`. -/
def cliBoolCb (longOpt : BoolOpt) (boolean : Bool) (opts : CliOpts) : CliOpts :=
  match longOpt with
  | .help => { opts with help := boolean }
  | .serial => { opts with sendSerial := true }
  | .pinKsn => { opts with sendPinksn := true }
  | .trace => { opts with enableTrace := true }

/-- One argument, by the callback of its type. -/
def applyArg (opts : CliOpts) : Arg → Option CliOpts
  | .nonopt option => cliNonoptCb platform option opts
  | .string longOpt string => cliStringCb platform longOpt string opts
  | .integer longOpt integer => cliIntegerCb longOpt integer opts
  | .boolean longOpt boolean => some (cliBoolCb longOpt boolean opts)

end Options

/-- `cli_trans_t` with all its fields. -/
structure Job extends CliTrans where
  host : Bytes
  port : ℕ
  keyfile : Option Bytes
  certfile : Option Bytes
  cadir : Option Bytes
  certvalidation : TlsVerify
  enableTrace : Bool

/-- An amount as it is sent. -/
def amountText (amount : ℕ) : Bytes := decimal (amount / 100) ++ ascii "." ++ paddedDecimal 2 (amount % 100)

section Lookups

/-- The canonical form of a key. -/
abbrev canon (key : Bytes) : Bytes := key.map lower

namespace Kvs

/-- Two keys are the same when they have one canonical form. -/
theorem sameKey_eq (kvs : Kvs) (left right : Bytes) :
    kvs.sameKey left right = decide (canon left = canon right) := by
  rw [HashDict.sameKey, kvs.caseless, keysAgree, if_pos rfl, strCaseeq, beq_eq_decide]

/-- An insertion decides its own key. -/
theorem get_insert (kvs : Kvs) (entry : Bytes × Bytes) (key : Bytes) :
    (kvs.insert entry).get key = if canon entry.1 = canon key then some entry.2 else kvs.get key := by
  rw [get, insert, Dict.getDirect_insert, sameKey_eq]
  simp only [decide_eq_true_eq]
  rfl

/-- A series of pairs is inserted as a layer. -/
theorem get_insertAll (series : List (Bytes × Bytes)) (kvs : Kvs) (key : Bytes) :
    (series.foldl insert kvs).get key = (lastOf canon series key).or (kvs.get key) :=
  get_foldl_put canon get_insert series kvs key

end Kvs

variable (platform : Platform)

/-- The pairs among the parts of a string, up to a part that cannot be split. -/
def kvsPairsLoop : List Bytes → List (Bytes × Bytes)
  | [] => []
  | part :: parts =>
    match platform.lib.strExplodeQuoted equals (platform.strdupUnquote part) dquote backslash 0 with
    | none => []
    | some [key, value] => (platform.strdupUnquote key, platform.strdupUnquote value) :: kvsPairsLoop parts
    | some _ => kvsPairsLoop parts

/-- The pairs that a string holds. -/
def kvsPairs (string : Bytes) : List (Bytes × Bytes) :=
  kvsPairsLoop platform ((platform.lib.strExplodeQuoted comma string dquote backslash 0).getD [])

variable {platform}

/-- The pairs of a string are inserted as a layer. -/
@[simp] theorem get_cliOptsLoadKvs (kvs : Kvs) (string key : Bytes) :
    (cliOptsLoadKvs platform kvs string).get key =
      (lastOf canon (kvsPairs platform string) key).or (kvs.get key) := by
  have hloop : ∀ (parts : List Bytes) (kvs : Kvs),
      cliOptsLoadKvsLoop platform parts kvs = (kvsPairsLoop platform parts).foldl Kvs.insert kvs := by
    intro parts
    induction parts with
    | nil => exact fun _ => rfl
    | cons part parts ih =>
      intro kvs
      rw [cliOptsLoadKvsLoop, kvsPairsLoop]
      split
      · rfl
      · rw [List.foldl_cons, ih]
      · exact ih kvs
  rw [← Kvs.get_insertAll, cliOptsLoadKvs, kvsPairs]
  cases platform.lib.strExplodeQuoted comma string dquote backslash 0 with
  | none => rfl
  | some parts => exact congrArg (Kvs.get · key) (hloop parts kvs)

end Lookups

end LibMonetra.CommandLine
