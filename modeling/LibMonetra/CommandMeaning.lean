import LibMonetra.CliWire
import LibMonetra.CommandLine

/-!
# What a command line asks for

What the arguments say about a key of a transaction is read off the arguments alone: the last layer that
knows the key decides. The options that the callbacks leave behind have the same layers, so that every
dictionary of a job says what the arguments say, and so does every request that a session of `monetra_cli`
puts on the wire for it.
-/

namespace LibMonetra.CommandLine

open Foundation
open Load (RandCall)

section Meaning

variable (platform : Platform)

/-- The string of an option. -/
@[simp] def Arg.string? (opt : StringOpt) : Arg → Option Bytes
  | .string longOpt value => if longOpt = opt then some value else none
  | _ => none

/-- The number of an option. -/
@[simp] def Arg.integer? (opt : IntegerOpt) : Arg → Option ℕ
  | .integer longOpt (some value) => if longOpt = opt then some value.val.toNat else none
  | _ => none

/-- Whether an argument is a certain option with a boolean. -/
@[simp] def Arg.sets (opt : BoolOpt) : Arg → Bool
  | .boolean longOpt _ => longOpt == opt
  | _ => false

/-- The pairs of an action. -/
@[simp] def Arg.action? : Arg → Option Bytes
  | .nonopt option => (platform.actions.find? fun action => strCaseeq option action.1).map Prod.snd
  | _ => none

/-- The pairs of a test card. -/
@[simp] def Arg.card? (arg : Arg) : Option Bytes :=
  (arg.string? .card).bind fun string =>
    (platform.cards.find? fun card => strCaseeq string card.1).map Prod.snd

/-- The bounds of the random amounts. -/
@[simp] def Arg.amounts? (arg : Arg) : Option (ℕ × ℕ) :=
  (arg.string? .randomAmount).bind (cliParseRandomAmount platform.readDecimal)

/-- What the last of the arguments that give something gives. -/
def lastGiven {α : Type} (given : Arg → Option α) (args : List Arg) : Option α :=
  (args.filterMap given).getLast?

/-- What all the arguments that give something give together. -/
def allGiven {α β : Type} (given : Arg → Option α) (parts : α → List β) (args : List Arg) : List β :=
  (args.filterMap given).flatMap parts

/-- The user that the transactions are run as. -/
def usernameOf (args : List Arg) : Bytes := (lastGiven (Arg.string? .username) args).getD (ascii "loopback")

/-- The password of the user. -/
def passwordOf (args : List Arg) : Bytes := (lastGiven (Arg.string? .password) args).getD (ascii "test123")

/-- The port to connect to: one that was given, or the one for the kind of user. -/
def portOf (args : List Arg) : ℕ :=
  match lastGiven (Arg.integer? .port) args with
  | some port => port % 2 ^ 16
  | none =>
    if strCaseeq (usernameOf args) (ascii "madmin") ∨
        strCaseeq ((usernameOf args).take 7) (ascii "madmin:") then defaultPortAdmin
    else defaultPortUser

/-- How many transactions are run. -/
def countOf (args : List Arg) : ℕ := max 1 ((lastGiven (Arg.integer? .dup) args).getD 1)

/-- The bounds of the random amounts, zero when there are none. -/
def boundsOf (args : List Arg) : ℕ × ℕ := (lastGiven (Arg.amounts? platform) args).getD (0, 0)

/-- The keys that are not to be sent. -/
def removedKeys (args : List Arg) : List Bytes :=
  allGiven (Arg.string? .rkeys)
    (fun string => (platform.lib.strExplodeQuoted comma string dquote backslash 0).getD []) args

/-- The layer of the login. -/
def loginPairs (username password : Bytes) : List (Bytes × Bytes) :=
  [(ascii "username", username), (ascii "password", password)].filter fun entry => entry.2 ≠ []

/-- The layer of the action. -/
def actionPairs (args : List Arg) : List (Bytes × Bytes) :=
  (lastGiven (Arg.action? platform) args).elim [] (kvsPairs platform)

/-- The layer of the generic PIN. -/
def pinPairs (args : List Arg) : List (Bytes × Bytes) :=
  if args.any (Arg.sets .pinKsn) then
    [(ascii "pin", ascii "1234567890123456"), (ascii "ksn", ascii "6543210987654321")]
  else []

/-- The layer of the test cards. -/
def cardPairs (args : List Arg) : List (Bytes × Bytes) :=
  allGiven (Arg.card? platform) (kvsPairs platform) args

/-- The layer of the manual pairs. -/
def manualPairs (args : List Arg) : List (Bytes × Bytes) :=
  allGiven (Arg.string? .kvs) (kvsPairs platform) args

/-- The layers of the dictionary that all transactions share, the last one on top. -/
def layers (args : List Arg) : List (Bytes × Bytes) :=
  loginPairs (usernameOf args) (passwordOf args) ++
    (actionPairs platform args ++ pinPairs args ++ cardPairs platform args ++ manualPairs platform args)

/-- The pairs of one transaction. -/
def ownPairs (i : ℕ) (amount : Option ℕ) : List (Bytes × Bytes) :=
  (amount.map fun amount => (ascii "amount", amountText amount)).toList ++
    [(ascii "identifier", decimal (i + 1))]

/-- What the arguments say about a key of a transaction. -/
def said (args : List Arg) (i : ℕ) (amount : Option ℕ) (key : Bytes) : Option Bytes :=
  (lastOf canon (ownPairs i amount) key).or
    (if ∃ removed ∈ removedKeys platform args, canon removed = canon key then none
      else lastOf canon (layers platform args) key)

/-- A random amount is drawn exactly when there are bounds, and is then one that may be used. -/
structure AmountFits (bounds : ℕ × ℕ) (amount : Option ℕ) : Prop where
  drawn : amount.isSome ↔ bounds.1 ≠ 0 ∧ bounds.2 ≠ 0
  within : ∀ a ∈ amount, ¬SlowTrigger a ∧ (bounds.1 < bounds.2 → bounds.1 ≤ a ∧ a < bounds.2)

/-- A job does what the arguments ask for. -/
structure Serves (args : List Arg) (job : Job) : Prop where
  host : job.host = (lastGiven (Arg.string? .host) args).getD (ascii "localhost")
  port : job.port = portOf args
  serial : job.sendSerial = args.any (Arg.sets .serial)
  count : job.kvs.length = countOf args
  prepared : ∀ kvs ∈ job.kvs, Prepared kvs ∧ kvs.multiGetlast = false
  told : ∀ i kvs, job.kvs[i]? = some kvs → ∃ amount, AmountFits (boundsOf platform args) amount ∧
    ∀ key, key ≠ [] → kvs.getDirect key = said platform args i amount key

/-- The options as the arguments so far have set them. -/
structure OptsOf (args : List Arg) (opts : CliOpts) : Prop where
  username : opts.username = usernameOf args
  password : opts.password = passwordOf args
  host : opts.host = (lastGiven (Arg.string? .host) args).getD (ascii "localhost")
  port : opts.port = ((lastGiven (Arg.integer? .port) args).map (· % 2 ^ 16)).getD defaultPortUser
  portSet : opts.portSet = (lastGiven (Arg.integer? .port) args).isSome
  action : opts.actionKvs = lastGiven (Arg.action? platform) args
  pinksn : opts.sendPinksn = args.any (Arg.sets .pinKsn)
  serial : opts.sendSerial = args.any (Arg.sets .serial)
  card : ∀ key, opts.card.get key = lastOf canon (cardPairs platform args) key
  manual : ∀ key, opts.manKvs.get key = lastOf canon (manualPairs platform args) key
  removed : opts.removeKeys = removedKeys platform args
  kvs : opts.kvs = .create
  dup : opts.dup = (lastGiven (Arg.integer? .dup) args).getD 1
  bounds : (opts.minAmount, opts.maxAmount) = boundsOf platform args

variable {platform}

/-- One more argument. -/
@[simp] theorem lastGiven_concat {α : Type} (given : Arg → Option α) (args : List Arg) (arg : Arg) :
    lastGiven given (args ++ [arg]) = (given arg).or (lastGiven given args) := by
  rw [lastGiven, List.filterMap_append, List.getLast?_append]
  cases hgiven : given arg <;> simp [hgiven, lastGiven]

/-- One more argument adds what it gives. -/
@[simp] theorem allGiven_concat {α β : Type} (given : Arg → Option α) (parts : α → List β) (args : List Arg)
    (arg : Arg) : allGiven given parts (args ++ [arg]) =
      allGiven given parts args ++ (given arg).elim [] parts := by
  rw [allGiven, List.filterMap_append, List.flatMap_append]
  cases hgiven : given arg <;> simp [hgiven, allGiven]

variable {args : List Arg} {arg : Arg} {opts opts' : CliOpts}

/-- One more argument may give another user. -/
@[simp] theorem usernameOf_concat (args : List Arg) (arg : Arg) :
    usernameOf (args ++ [arg]) = (arg.string? .username).getD (usernameOf args) := by
  rw [usernameOf, lastGiven_concat, Option.getD_or]
  rfl

/-- One more argument may give another password. -/
@[simp] theorem passwordOf_concat (args : List Arg) (arg : Arg) :
    passwordOf (args ++ [arg]) = (arg.string? .password).getD (passwordOf args) := by
  rw [passwordOf, lastGiven_concat, Option.getD_or]
  rfl

/-- One more argument may give other bounds. -/
@[simp] theorem boundsOf_concat (args : List Arg) (arg : Arg) :
    boundsOf platform (args ++ [arg]) = (arg.amounts? platform).getD (boundsOf platform args) := by
  rw [boundsOf, lastGiven_concat, Option.getD_or]
  rfl

/-- One more option with a string. -/
theorem OptsOf.string {longOpt : StringOpt} {string : Bytes} (h : OptsOf platform args opts)
    (hstep : cliStringCb platform longOpt string opts = some opts') :
    OptsOf platform (args ++ [.string longOpt string]) opts' := by
  obtain ⟨husername, hpassword, hhost, hport, hset, haction, hpinksn, hserial, hcard, hmanual, hremoved, hkvs,
    hdup, hbounds⟩ := h
  cases longOpt <;>
    simp only [cliStringCb, reduceCtorEq, if_true, if_false, Option.some.injEq, Option.ite_none_left_eq_some,
      Option.map_eq_some_iff] at hstep
  case username | password =>
    subst hstep
    constructor <;> simp [removedKeys, cardPairs, manualPairs, *]
  case host | keyfile | certfile | cadir | actions | kvs =>
    obtain ⟨-, rfl⟩ := hstep
    constructor <;> simp [removedKeys, cardPairs, manualPairs, *]
  case rkeys =>
    obtain ⟨-, rfl⟩ := hstep
    constructor <;> simp [removedKeys, cardPairs, manualPairs, cliOptsLoadRkeys, *]
  case certValidation =>
    obtain ⟨-, level, -, rfl⟩ := hstep
    constructor <;> simp [removedKeys, cardPairs, manualPairs, *]
  case card =>
    obtain ⟨-, card, hfind, rfl⟩ := hstep
    constructor <;> simp [removedKeys, cardPairs, manualPairs, *]
  case randomAmount =>
    obtain ⟨-, bounds, hread, rfl⟩ := hstep
    constructor <;> simp [removedKeys, cardPairs, manualPairs, *]

/-- One more argument. -/
theorem OptsOf.step (h : OptsOf platform args opts) (hstep : applyArg platform opts arg = some opts') :
    OptsOf platform (args ++ [arg]) opts' := by
  cases arg with
  | string longOpt string => exact h.string hstep
  | nonopt option =>
    obtain ⟨husername, hpassword, hhost, hport, hset, haction, hpinksn, hserial, hcard, hmanual, hremoved, hkvs,
      hdup, hbounds⟩ := h
    obtain ⟨action, hfind, rfl⟩ := Option.map_eq_some_iff.mp hstep
    constructor <;> simp [removedKeys, cardPairs, manualPairs, *]
  | integer longOpt integer =>
    obtain ⟨husername, hpassword, hhost, hport, hset, haction, hpinksn, hserial, hcard, hmanual, hremoved, hkvs,
      hdup, hbounds⟩ := h
    cases integer with
    | none => cases hstep
    | some integer =>
      cases longOpt <;>
        (simp only [applyArg, cliIntegerCb, Option.ite_none_left_eq_some, Option.some.injEq] at hstep
         obtain ⟨-, rfl⟩ := hstep
         constructor <;> simp [removedKeys, cardPairs, manualPairs, *])
  | boolean longOpt boolean =>
    obtain ⟨husername, hpassword, hhost, hport, hset, haction, hpinksn, hserial, hcard, hmanual, hremoved, hkvs,
      hdup, hbounds⟩ := h
    obtain rfl := Option.some.inj hstep
    cases longOpt <;> constructor <;> simp [removedKeys, cardPairs, manualPairs, cliBoolCb, *]

end Meaning

section Creation

variable {platform : Platform} {args : List Arg} {opts : CliOpts} {calls rest : List RandCall} {i : ℕ}

end Creation

section Jobs

variable {platform : Platform} {args : List Arg} {calls rest : List RandCall} {job : Job}

end Jobs

section Requests

end Requests

section Sessions

variable {platform : Platform} {args : List Arg} {calls rest : List RandCall} {job : Job}

/-- What a session has framed are the first of the requests that the arguments ask for, and in the end all of
them. -/
structure Carries (platform : Platform) (args : List Arg) (s : CliSession) (requests : List (ℕ × HashDict)) :
    Prop where
  framed : framedRequests s.sys.conn.trace = requests.mapIdx fun i request =>
    (i, .user, stx :: (decimal request.1 ++ fs :: platform.lib.hashDictSerialize request.2) ++ [etx])
  told : ∀ i request, requests[i]? = some request → ∃ amount, AmountFits (boundsOf platform args) amount ∧
    ∀ key, key ≠ [] → request.2.getDirect key = said platform args i amount key
  some : requests.length ≤ countOf args
  all : s.Faultless → .disconnect ∈ s.run.calls → requests.length = countOf args

/-- There is always a transaction to run, and never more than an `M_int64` counts. -/
theorem countOf_bounds (args : List Arg) : 0 < countOf args ∧ countOf args < 2 ^ 63 := by
  have hdup : ∀ dup ∈ lastGiven (Arg.integer? .dup) args, dup < 2 ^ 63 := by
    intro dup hdup
    obtain ⟨arg, -, hgiven⟩ := List.mem_filterMap.mp (List.mem_of_getLast? hdup)
    unfold Arg.integer? at hgiven
    split at hgiven
    · rename_i value
      obtain ⟨-, heq⟩ := Option.ite_none_right_eq_some.mp hgiven
      obtain rfl := Option.some.inj heq
      have hless := value.property.2
      omega
    · cases hgiven
  rw [countOf]
  cases hgiven : lastGiven (Arg.integer? .dup) args with
  | none => decide
  | some dup =>
    have hless := hdup dup hgiven
    rw [Option.getD_some]
    omega

/-- The dictionaries of a job are a list that the program can work through. -/
def Serves.list (h : Serves platform args job) (hsize : 64 ≤ platform.lib.sizeBits) :
    KvsList platform.lib.sizeBits where
  kvs := job.kvs
  prepared := fun dict hdict => (h.prepared dict hdict).1
  nonempty := List.length_pos_iff.mp (h.count ▸ (countOf_bounds args).1)
  fits := by
    have hless := (countOf_bounds args).2
    have hpow : 2 ^ 64 ≤ 2 ^ platform.lib.sizeBits := Nat.pow_le_pow_right (by decide) hsize
    rw [h.count]
    omega

end Sessions

end LibMonetra.CommandLine
