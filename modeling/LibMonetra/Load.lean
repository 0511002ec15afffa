import LibMonetra.RandomAmount
import LibMonetra.Foundation.Packing
import Mathlib.Data.List.Range
import Mathlib.Data.List.Nodup

/-!
# `monetra_load`

The load generator prepares a batch of transactions and spreads them over its connections. Every
transaction has a number that packs its connection and its place on the connection, and a random amount.
`M_getopt_parse` and the random generator are outside: the first hands its values to the callbacks of the
options, the second answers the calls of `M_rand_range` one after the other.
-/

namespace LibMonetra.Load

open Foundation

/-- `M_int64`. -/
abbrev MInt64 := {z : ℤ // -2 ^ 63 ≤ z ∧ z < 2 ^ 63}

/-- A value as `M_getopt_parse` hands it to the callback of its option; a decimal with its cents, as
`M_decimal_to_int(decimal, 2)` has them. -/
inductive Arg
  | boolean (shortOpt : Char)
  | integer (shortOpt : Char) (integer : MInt64)
  | decimal (shortOpt : Char) (cents : MInt64)
  | string (shortOpt : Char) (string : Bytes)

/-- `trantype_t`. -/
inductive TranType
  | sale
  | preauth
  | force
  deriving DecidableEq, Repr

/-- `cli_options_t` without its runtime state. `num_accounts` is the length of `accounts`. -/
structure CliOptions where
  username : Bytes
  password : Bytes
  hostname : Bytes
  numTrans : ℕ
  numConns : ℕ
  maxAmount : ℕ
  exactAmount : ℕ
  accounts : List Bytes
  expdate : Bytes
  trackdata : Option Bytes
  ksn : Option Bytes
  street : Bytes
  zip : Bytes
  userCount : ℕ
  userCreate : Bool
  userCleanup : Bool
  userSettle : Bool
  autoConfirm : Bool
  help : Bool
  method : Mode
  trantype : TranType
  port : ℕ
  adminPort : ℕ

/-- The width of `size_t`, `RAND_MAX`, and `M_str_explode_str` with a comma. -/
structure Platform where
  sizeBits : ℕ
  randMax : ℕ
  explodeStr : Bytes → List Bytes

section Options

variable (platform : Platform)

/-- `cli_options_create`. -/
def cliOptionsCreate : CliOptions where
  username := ascii "loopback"
  password := ascii "test123"
  hostname := ascii "localhost"
  numTrans := 100
  numConns := 10
  maxAmount := 10000
  exactAmount := 0
  accounts := platform.explodeStr
    (ascii "4012888888881881,5454545454545454,371449635398431,6011000995500000")
  expdate := ascii "0249"
  trackdata := none
  ksn := none
  street := ascii "580039"
  zip := ascii "32606"
  userCount := 0
  userCreate := true
  userCleanup := true
  userSettle := false
  autoConfirm := false
  help := false
  method := .tls
  trantype := .sale
  port := 8665
  adminPort := 8666

/-- `cli_bool_cb`. -/
def cliBoolCb (shortOpt : Char) (opt : CliOptions) : Option CliOptions :=
  match shortOpt with
  | 'f' => some { opt with trantype := .force }
  | 'r' => some { opt with trantype := .preauth }
  | 'C' => some { opt with autoConfirm := true }
  | 'n' => some { opt with userCreate := false }
  | 'N' => some { opt with userCleanup := false }
  | 'S' => some { opt with userSettle := true }
  | 'h' => some { opt with help := true }
  | _ => none

/-- `cli_integer_cb`. -/
def cliIntegerCb (shortOpt : Char) (integer : MInt64) (opt : CliOptions) : Option CliOptions :=
  if integer.val < 0 then none
  else
    let val := integer.val.toNat
    match shortOpt with
    | 'p' => if val > 0xffff then none else some { opt with port := val }
    | 't' => if val > 2 ^ platform.sizeBits - 1 then none else some { opt with numTrans := val }
    | 'x' => if val > 2 ^ platform.sizeBits - 1 then none else some { opt with numConns := val }
    | 'u' =>
      if val > 2 ^ platform.sizeBits - 1 then none
      else some { opt with userCount := val, username := ascii "MADMIN" }
    | 'a' => if val > 0xffff then none else some { opt with adminPort := val }
    | _ => none

/-- `cli_decimal_cb`. -/
def cliDecimalCb (shortOpt : Char) (decval : MInt64) (opt : CliOptions) : Option CliOptions :=
  match shortOpt with
  | 'A' =>
    if decval.val < 0 then none
    else if decval.val.toNat ≥ platform.randMax then none
    else some { opt with maxAmount := decval.val.toNat }
  | 'e' => if decval.val < 0 then none else some { opt with exactAmount := decval.val.toNat }
  | _ => none

/-- `cli_string_cb`. -/
def cliStringCb (shortOpt : Char) (string : Bytes) (opt : CliOptions) : Option CliOptions :=
  if string = [] then none
  else
    match shortOpt with
    | 'U' => some { opt with username := string }
    | 'P' => some { opt with password := string }
    | 'm' =>
      if strCaseeq string (ascii "IP") then some { opt with method := .ip }
      else if strCaseeq string (ascii "SSL") then some { opt with method := .tls }
      else none
    | 'H' => some { opt with hostname := string }
    | 'c' =>
      if platform.explodeStr string = [] then none
      else some { opt with accounts := platform.explodeStr string }
    | 'd' => some { opt with expdate := string }
    | 'w' => some { opt with trackdata := some string }
    | 'k' => some { opt with ksn := some string }
    | 's' => some { opt with street := string }
    | 'z' => some { opt with zip := string }
    | _ => none

/-- One option, by the callback of its type. -/
def applyArg (opt : CliOptions) : Arg → Option CliOptions
  | .boolean shortOpt => cliBoolCb shortOpt opt
  | .integer shortOpt integer => cliIntegerCb platform shortOpt integer opt
  | .decimal shortOpt cents => cliDecimalCb platform shortOpt cents opt
  | .string shortOpt string => cliStringCb platform shortOpt string opt

/-- `read_cmdline` behind the splitting of the arguments. -/
def readCmdline (args : List Arg) : Option CliOptions :=
  match args.foldlM (applyArg platform) (cliOptionsCreate platform) with
  | none => none
  | some opt =>
    if opt.help then none
    else if opt.trackdata.getD [] ≠ [] then some { opt with accounts := [] }
    else some opt

end Options

/-- A call of `M_rand_range` with what it returned: a value from the lower bound up to, without it, the
upper one. -/
structure RandCall where
  lo : ℕ
  hi : ℕ
  value : ℕ
  within : lo < hi → lo ≤ value ∧ value < hi

/-- `M_rand_range`, answered by the next of the calls. -/
def randRange (lo hi : ℕ) : List RandCall → Option (ℕ × List RandCall)
  | [] => none
  | call :: calls => if call.lo = lo ∧ call.hi = hi then some (call.value, calls) else none

/-- The loop of `GetAmount`. -/
def getAmountLoop (maxAmount : ℕ) : List RandCall → Option (ℕ × List RandCall)
  | [] => none
  | call :: calls =>
    if call.lo = 1 ∧ call.hi = (maxAmount + 1) % 2 ^ 64 then
      if call.value ≤ 800 ∨ call.value > 899 then some (call.value, calls)
      else getAmountLoop maxAmount calls
    else none

/-- `GetAmount`. -/
def getAmount (opt : CliOptions) (calls : List RandCall) : Option (ℕ × List RandCall) :=
  if opt.exactAmount ≠ 0 then some (opt.exactAmount, calls) else getAmountLoop opt.maxAmount calls

/-- `%0*llu`. -/
def paddedDecimal (width n : ℕ) : Bytes := List.replicate (width - (decimal n).length) 0x30 ++ decimal n

/-- A transaction as it is sent: the connection, the number and the amount it was made with, and its
parameters. -/
structure Tran where
  conn : ℕ
  ptrannum : ℕ
  amount : ℕ
  params : List (Bytes × Bytes)

/-- The parameters of the user, drawn from the ones that were created if there are any. -/
def userParams (opt : CliOptions) (calls : List RandCall) :
    Option (List (Bytes × Bytes) × List RandCall) :=
  if opt.userCount > 0 then
    (randRange 0 opt.userCount calls).map fun r =>
      ([(ascii "username", ascii "u" ++ paddedDecimal 10 r.1), (ascii "password", ascii "Test123$")], r.2)
  else some ([(ascii "username", opt.username), (ascii "password", opt.password)], calls)

/-- The parameters of the action. -/
def actionParams : TranType → List (Bytes × Bytes)
  | .force => [(ascii "action", ascii "force"), (ascii "apprcode", ascii "999999")]
  | .preauth => [(ascii "action", ascii "preauth")]
  | .sale => [(ascii "action", ascii "sale")]

/-- The parameters of the account, drawn by `GetCCNumber` if there are any. -/
def accountParams (opt : CliOptions) (calls : List RandCall) :
    Option (List (Bytes × Bytes) × List RandCall) :=
  if opt.accounts.length > 0 then
    (randRange 0 opt.accounts.length calls).map fun r =>
      ([(ascii "account", opt.accounts.getD r.1 []), (ascii "expdate", opt.expdate)], r.2)
  else some ([], calls)

/-- The parameters of the card reader. -/
def readerParams (opt : CliOptions) : List (Bytes × Bytes) :=
  let trackdata := opt.trackdata.getD []
  let ksn := opt.ksn.getD []
  (if trackdata = [] then [] else [(ascii (if ksn = [] then "trackdata" else "e_trackdata"), trackdata)]) ++
    if ksn = [] then [] else [(ascii "e_id", ksn)]

/-- `enqueue_tran`. -/
def enqueueTran (opt : CliOptions) (conn ptrannum : ℕ) (calls : List RandCall) :
    Option (Tran × List RandCall) := do
  let (user, calls) ← userParams opt calls
  let (account, calls) ← accountParams opt calls
  let (amt, calls) ← getAmount opt calls
  let params := user ++ actionParams opt.trantype ++ account ++ readerParams opt ++
    [(ascii "amount", decimal (amt / 100) ++ ascii "." ++ paddedDecimal 2 (amt % 100)),
      (ascii "street", opt.street), (ascii "zip", opt.zip), (ascii "comments", ascii "push script"),
      (ascii "ptrannum", decimal ptrannum), (ascii "priority", ascii "low")]
  some (⟨conn, ptrannum, amt, params⟩, calls)

/-- The number of a transaction, in `M_uint64`. -/
def ptrannumOf (nconns i : ℕ) : ℕ := (i % nconns * 1000000 % 2 ^ 64 + i / nconns) % 2 ^ 64

/-- The loop of `enqueue_transactions` from one index on. -/
def enqueueLoop (opt : CliOptions) (nconns : ℕ) :
    ℕ → ℕ → List RandCall → Option (List Tran × List RandCall)
  | _, 0, calls => some ([], calls)
  | i, left + 1, calls => do
    let (tran, calls) ← enqueueTran opt (i % nconns) (ptrannumOf nconns i) calls
    let (batch, calls) ← enqueueLoop opt nconns (i + 1) left calls
    some (tran :: batch, calls)

/-- `enqueue_transactions`. -/
def enqueueTransactions (opt : CliOptions) (nconns ntxns : ℕ) (calls : List RandCall) :
    Option (List Tran × List RandCall) :=
  enqueueLoop opt nconns 0 ntxns calls

/-- What a random amount has to be. -/
def AmountServed (opt : CliOptions) (tran : Tran) : Prop :=
  1 ≤ tran.amount ∧ tran.amount ≤ opt.maxAmount ∧ ¬SlowTrigger tran.amount

/-- A batch is well formed: the numbers are distinct, and random amounts are what was asked for. -/
structure BatchWellFormed (opt : CliOptions) (batch : List Tran) : Prop where
  distinct : (batch.map Tran.ptrannum).Nodup
  amounts : opt.exactAmount = 0 → 1 ≤ opt.maxAmount → ∀ tran ∈ batch, AmountServed opt tran

section Numbers

/-- Connections that meet when the numbers wrap: how many connections lie between them, and how many
transactions the later one is behind. -/
def aheadMeetings : List (ℕ × ℕ) :=
  [(1, 1000000), (18446744073710, 448384), (166020696663386, 35456), (534955578137577, 3136),
    (17690427566687460, 256), (76480200929599801, 64), (288230376151711744, 0)]

/-- The same, with the later connection before the other one. -/
def behindMeetings : List (ℕ × ℕ) := [(36893488147419, 103232), (5718490662849961, 960)]

/-- A meeting is no nearer than a listed one, of the second kind with fewer transactions than a limit. -/
def Listed (d e limit : ℕ) : Prop :=
  (∃ m ∈ aheadMeetings, m.1 ≤ d ∧ m.2 ≤ e) ∨ ∃ m ∈ behindMeetings, m.1 ≤ d ∧ m.2 < limit

instance (d e limit : ℕ) : Decidable (Listed d e limit) := inferInstanceAs (Decidable (_ ∨ _))

/-- More connections between the two do not bring a meeting nearer. -/
theorem Listed.mono {d d' e limit : ℕ} (h : Listed d e limit) (hd : d ≤ d') : Listed d' e limit := by
  rcases h with ⟨m, hm, hleft, hback⟩ | ⟨m, hm, hleft, hback⟩
  · exact .inl ⟨m, hm, hleft.trans hd, hback⟩
  · exact .inr ⟨m, hm, hleft.trans hd, hback⟩

/-- The meetings that take few turns of the word: the turns determine the transactions. -/
theorem listed_fewTurns : ∀ turns < 89, 0 < turns →
    (turns * (7006 * turns % 15625) ≤ 7812 →
      Listed ((turns * 2 ^ 58 + 7006 * turns % 15625) / 15625) (64 * (7006 * turns % 15625))
        (64 * (7006 * turns % 15625))) ∧
    (turns * (8619 * turns % 15625) ≤ 7812 →
      Listed ((turns * 2 ^ 58 - 8619 * turns % 15625) / 15625) (64 * (8619 * turns % 15625))
        (64 * (8619 * turns % 15625) + 1)) := by
  decide

/-- The meetings that few transactions are enough for: the transactions determine the least turns. -/
theorem listed_fewRows : ∀ e < 89,
    (((4146 * e + 15624) % 15625 + 1) * e ≤ 7812 →
      Listed ((((4146 * e + 15624) % 15625 + 1) * 2 ^ 58 + e) / 15625) (64 * e) (64 * e)) ∧
    (((11479 * e + 15624) % 15625 + 1) * e ≤ 7812 →
      Listed ((((11479 * e + 15624) % 15625 + 1) * 2 ^ 58 - e) / 15625) (64 * e) (64 * e + 1)) := by
  decide

/-- Turns and transactions are not both large. -/
theorem few_of_mul_le {turns e : ℕ} (h : turns * e ≤ 7812) : turns < 89 ∨ e < 89 := by
  by_contra hmany
  have hlarge : 89 * 89 ≤ turns * e := Nat.mul_le_mul (by omega) (by omega)
  omega

/-- Behind the first turn of the word, a meeting is no nearer than a listed one. The stride and the size of
the word are both divided by their common divisor 64 here. -/
theorem listed_ahead {d turns e : ℕ} (hmeet : d * 15625 = turns * 2 ^ 58 + e) (hturns : 0 < turns)
    (he : e < 15625) (hnear : d * (64 * e) < 2 ^ 63) : Listed d (64 * e) (64 * e) := by
  have hproduct : turns * e ≤ 7812 := by
    have hscaled : turns * e * 2 ^ 58 ≤ d * (64 * e) * 15625 / 64 := by
      rw [show d * (64 * e) * 15625 = 64 * (d * 15625 * e) by ring, Nat.mul_div_cancel_left _ (by decide),
        Nat.mul_right_comm]
      exact Nat.mul_le_mul_right _ (by omega)
    omega
  rcases few_of_mul_le hproduct with hfew | hfew
  · have hrows : e = 7006 * turns % 15625 := by omega
    have hbetween : d = (turns * 2 ^ 58 + e) / 15625 := by omega
    rw [hbetween]
    subst hrows
    exact (listed_fewTurns turns hfew hturns).1 hproduct
  · have hleast : (4146 * e + 15624) % 15625 + 1 ≤ turns := by omega
    refine ((listed_fewRows e hfew).1 ((Nat.mul_le_mul_right e hleast).trans hproduct)).mono ?_
    omega

/-- The same, with the later connection before the other one. -/
theorem listed_behind {d turns e : ℕ} (hmeet : d * 15625 + e = turns * 2 ^ 58) (hturns : 0 < turns)
    (he : e < 15625) (hnear : d * (64 * e) < 2 ^ 63) : Listed d (64 * e) (64 * e + 1) := by
  have hproduct : turns * e ≤ 7812 := by
    have hscaled : turns * e * 2 ^ 58 = d * (64 * e) * 15625 / 64 + e * e := by
      rw [show d * (64 * e) * 15625 = 64 * (d * 15625 * e) by ring, Nat.mul_div_cancel_left _ (by decide),
        Nat.mul_right_comm, ← hmeet, Nat.add_mul]
    have hsquare : e * e ≤ 15625 * 15625 := Nat.mul_le_mul he.le he.le
    omega
  rcases few_of_mul_le hproduct with hfew | hfew
  · have hrows : e = 8619 * turns % 15625 := by omega
    have hbetween : d = (turns * 2 ^ 58 - e) / 15625 := by omega
    rw [hbetween]
    subst hrows
    exact (listed_fewTurns turns hfew hturns).2 hproduct
  · have hleast : (11479 * e + 15624) % 15625 + 1 ≤ turns := by omega
    refine ((listed_fewRows e hfew).2 ((Nat.mul_le_mul_right e hleast).trans hproduct)).mono ?_
    omega

/-- The listed meetings are the front of the numbers that 64 bits hold. -/
def ptrannumFront : Front 1000000 (2 ^ 64) (2 ^ 63) where
  ahead := aheadMeetings
  behind := behindMeetings
  meets_ahead := by decide
  meets_behind := by decide
  least_ahead := by
    rintro d e hd hnear ⟨turns, hmeet⟩
    rcases Nat.lt_or_ge e 1000000 with hlow | hhigh
    · obtain ⟨e, rfl⟩ : ∃ e', e = 64 * e' := ⟨d * 15625 - turns * 2 ^ 58, by omega⟩
      have hdivided : d * 15625 = turns * 2 ^ 58 + e := Nat.le_antisymm (by omega) (by omega)
      exact listed_ahead hdivided (by omega) (by omega) hnear
    · exact .inl ⟨(1, 1000000), List.mem_cons_self, hd, hhigh⟩
  least_behind := by
    rintro d e hd hnear ⟨turns, hmeet⟩
    rcases Nat.lt_or_ge e 1000000 with hlow | hhigh
    · obtain ⟨e, rfl⟩ : ∃ e', e = 64 * e' := ⟨turns * 2 ^ 58 - d * 15625, by omega⟩
      have hdivided : d * 15625 + e = turns * 2 ^ 58 := Nat.le_antisymm (by omega) (by omega)
      rcases listed_behind hdivided (by omega) (by omega) hnear with hlist | hlist
      · exact .inl hlist
      · exact .inr (by simpa only [Nat.lt_succ_iff] using hlist)
    · exact .inl ⟨(1, 1000000), List.mem_cons_self, hd, hhigh⟩

/-- The strides of the connections do not reach each other. -/
def StridesApart (nconns ntxns : ℕ) : Prop := ptrannumFront.Apart nconns ntxns

instance (nconns ntxns : ℕ) : Decidable (StridesApart nconns ntxns) :=
  inferInstanceAs (Decidable (ptrannumFront.Apart nconns ntxns))

/-- The numbers of a batch are distinct exactly when the strides of its connections do not reach each
other. -/
theorem ptrannumOf_injOn_iff {nconns ntxns : ℕ} (hconns : 1 ≤ nconns) (htrans : ntxns ≤ 2 ^ 63) :
    Set.InjOn (ptrannumOf nconns) (Set.Iio ntxns) ↔ StridesApart nconns ntxns := by
  have hpacked : ptrannumOf nconns = packed nconns 1000000 (2 ^ 64) := by
    funext i
    rw [ptrannumOf, packed, Nat.mod_add_mod]
  rw [hpacked, packed_injOn_iff hconns (by omega), ptrannumFront.apart_iff htrans, StridesApart]

end Numbers

section Accepted

variable {platform : Platform} {opt opt' : CliOptions}

/-- The counts and the largest amount are below the sign bit of 64-bit numbers. -/
def CliOptions.Fits (opt : CliOptions) : Prop := opt.numTrans < 2 ^ 63 ∧ opt.maxAmount < 2 ^ 63

/-- An `M_int64` is below the sign bit. -/
theorem MInt64.toNat_lt (z : MInt64) : z.val.toNat < 2 ^ 63 := by
  have hhigh := z.property.2
  omega

/-- A value that is set keeps to the bounds of the options it is set in. -/
theorem fits_of_some (h : some opt = some opt') (hfits : opt.Fits) : opt'.Fits :=
  Option.some.inj h ▸ hfits

/-- So does a value that is set behind a check. -/
theorem fits_of_guard {refused : Prop} [Decidable refused]
    (h : (if refused then none else some opt) = some opt') (hfits : opt.Fits) : opt'.Fits := by
  split at h
  · cases h
  · exact fits_of_some h hfits

/-- `cli_bool_cb` touches no count. -/
theorem cliBoolCb_fits (hfits : opt.Fits) {shortOpt : Char} (h : cliBoolCb shortOpt opt = some opt') :
    opt'.Fits := by
  unfold cliBoolCb at h
  split at h
  case h_8 => cases h
  all_goals exact fits_of_some h hfits

/-- `cli_integer_cb` sets the number of transactions to a value below the sign bit. -/
theorem cliIntegerCb_fits (hfits : opt.Fits) {shortOpt : Char} {integer : MInt64}
    (h : cliIntegerCb platform shortOpt integer opt = some opt') : opt'.Fits := by
  simp only [cliIntegerCb] at h
  split at h
  · cases h
  · split at h
    case h_2 => exact fits_of_guard h ⟨MInt64.toNat_lt integer, hfits.2⟩
    case h_6 => cases h
    all_goals exact fits_of_guard h hfits

/-- `cli_decimal_cb` sets the largest amount to a value below the sign bit. -/
theorem cliDecimalCb_fits (hfits : opt.Fits) {shortOpt : Char} {decval : MInt64}
    (h : cliDecimalCb platform shortOpt decval opt = some opt') : opt'.Fits := by
  simp only [cliDecimalCb] at h
  split at h
  · split at h
    · cases h
    · exact fits_of_guard h ⟨hfits.1, MInt64.toNat_lt decval⟩
  · exact fits_of_guard h hfits
  · cases h

/-- `cli_string_cb` touches no count. -/
theorem cliStringCb_fits (hfits : opt.Fits) {shortOpt : Char} {string : Bytes}
    (h : cliStringCb platform shortOpt string opt = some opt') : opt'.Fits := by
  simp only [cliStringCb] at h
  split at h
  · cases h
  · split at h
    case h_3 =>
      split at h
      · exact fits_of_some h hfits
      · split at h
        · exact fits_of_some h hfits
        · cases h
    case h_5 => exact fits_of_guard h hfits
    case h_11 => cases h
    all_goals exact fits_of_some h hfits

/-- Every option keeps to these bounds. -/
theorem applyArg_fits (hfits : opt.Fits) {arg : Arg} (h : applyArg platform opt arg = some opt') :
    opt'.Fits := by
  cases arg with
  | boolean shortOpt => exact cliBoolCb_fits hfits h
  | integer shortOpt integer => exact cliIntegerCb_fits hfits h
  | decimal shortOpt cents => exact cliDecimalCb_fits hfits h
  | string shortOpt string => exact cliStringCb_fits hfits h

/-- So do all options together. -/
theorem foldlM_applyArg_fits (args : List Arg) (hfits : opt.Fits)
    (h : args.foldlM (applyArg platform) opt = some opt') : opt'.Fits := by
  induction args generalizing opt with
  | nil => exact Option.some.inj h ▸ hfits
  | cons arg args ih =>
    obtain ⟨next, hnext, hrest⟩ := Option.bind_eq_some_iff.mp h
    exact ih (applyArg_fits hfits hnext) hrest

/-- The options that `read_cmdline` accepts. -/
theorem readCmdline_fits {args : List Arg} (h : readCmdline platform args = some opt) : opt.Fits := by
  simp only [readCmdline] at h
  split at h
  · cases h
  · rename_i parsed hparsed
    have hfits : parsed.Fits := foldlM_applyArg_fits args
      ⟨(by decide : 100 < 2 ^ 63), (by decide : 10000 < 2 ^ 63)⟩ hparsed
    split at h
    · cases h
    · split at h <;> (obtain rfl := Option.some.inj h; exact hfits)

end Accepted

section Amounts

/-- A call for an amount returned 800. -/
def DrawsSlow (calls : List RandCall) : Prop := ∃ call ∈ calls, call.lo = 1 ∧ call.value = 800

/-- Calls one after the other. -/
theorem drawsSlow_append (calls calls' : List RandCall) :
    DrawsSlow (calls ++ calls') ↔ DrawsSlow calls ∨ DrawsSlow calls' := by
  simp only [DrawsSlow, List.mem_append, or_and_right, exists_or]

/-- A call for a range that starts at 0 is not one for an amount. -/
theorem randRange_zero_spec {hi value : ℕ} {calls rest : List RandCall}
    (h : randRange 0 hi calls = some (value, rest)) : ∃ used, calls = used ++ rest ∧ ¬DrawsSlow used := by
  cases calls with
  | nil => cases h
  | cons call calls =>
    simp only [randRange] at h
    split at h
    · rename_i hbounds
      cases h
      exact ⟨[call], rfl, by simp [DrawsSlow, hbounds.1]⟩
    · cases h

/-- The loop ends with an amount of the range, and with one that delays the server only if it was given
800. -/
theorem getAmountLoop_spec {maxAmount amt : ℕ} {calls rest : List RandCall} (hmax : maxAmount < 2 ^ 63)
    (h : getAmountLoop maxAmount calls = some (amt, rest)) :
    ∃ used, calls = used ++ rest ∧
      (1 ≤ maxAmount → 1 ≤ amt ∧ amt ≤ maxAmount ∧ (SlowTrigger amt ↔ DrawsSlow used)) := by
  induction calls with
  | nil => cases h
  | cons call calls ih =>
    simp only [getAmountLoop] at h
    split at h
    · rename_i hbounds
      rw [Nat.mod_eq_of_lt (by omega)] at hbounds
      have hcall : DrawsSlow [call] ↔ call.value = 800 := by
        simp [DrawsSlow, hbounds.1]
      split at h
      · rename_i haccepted
        cases h
        refine ⟨[call], rfl, fun hpos => ?_⟩
        have hwithin := call.within (by omega)
        rw [hcall, SlowTrigger]
        omega
      · rename_i hrejected
        obtain ⟨used, rfl, hamount⟩ := ih h
        refine ⟨call :: used, rfl, fun hpos => ?_⟩
        obtain ⟨hlow, hhigh, hslow⟩ := hamount hpos
        refine ⟨hlow, hhigh, ?_⟩
        rw [hslow, ← List.singleton_append, drawsSlow_append, hcall]
        exact (or_iff_right (by omega)).symm
    · cases h

/-- The calls for the user are not for an amount. -/
theorem userParams_spec {opt : CliOptions} {calls rest : List RandCall} {params : List (Bytes × Bytes)}
    (h : userParams opt calls = some (params, rest)) : ∃ used, calls = used ++ rest ∧ ¬DrawsSlow used := by
  simp only [userParams] at h
  split at h
  · obtain ⟨r, hr, heq⟩ := Option.map_eq_some_iff.mp h
    cases heq
    exact randRange_zero_spec hr
  · cases h
    exact ⟨[], rfl, by simp [DrawsSlow]⟩

/-- Neither are the calls for the account. -/
theorem accountParams_spec {opt : CliOptions} {calls rest : List RandCall} {params : List (Bytes × Bytes)}
    (h : accountParams opt calls = some (params, rest)) :
    ∃ used, calls = used ++ rest ∧ ¬DrawsSlow used := by
  simp only [accountParams] at h
  split at h
  · obtain ⟨r, hr, heq⟩ := Option.map_eq_some_iff.mp h
    cases heq
    exact randRange_zero_spec hr
  · cases h
    exact ⟨[], rfl, by simp [DrawsSlow]⟩

/-- A transaction has the number it was given and a random amount of the range, which delays the server
only if 800 was drawn. -/
theorem enqueueTran_spec {opt : CliOptions} (hfits : opt.Fits) {conn ptrannum : ℕ}
    {calls rest : List RandCall} {tran : Tran}
    (h : enqueueTran opt conn ptrannum calls = some (tran, rest)) :
    ∃ used, calls = used ++ rest ∧ tran.ptrannum = ptrannum ∧
      (opt.exactAmount = 0 → 1 ≤ opt.maxAmount → 1 ≤ tran.amount ∧ tran.amount ≤ opt.maxAmount ∧
        (SlowTrigger tran.amount ↔ DrawsSlow used)) := by
  simp only [enqueueTran, Option.bind_eq_bind, Option.bind_eq_some_iff] at h
  obtain ⟨⟨user, calls₁⟩, huser, ⟨account, calls₂⟩, haccount, ⟨amt, calls₃⟩, hamt, heq⟩ := h
  cases heq
  obtain ⟨used, rfl, hused⟩ := userParams_spec huser
  obtain ⟨used', rfl, hused'⟩ := accountParams_spec haccount
  simp only [getAmount] at hamt
  split at hamt
  · rename_i hexact
    cases hamt
    exact ⟨used ++ used', (List.append_assoc ..).symm, rfl, fun hzero => absurd hzero hexact⟩
  · obtain ⟨used'', rfl, hamount⟩ := getAmountLoop_spec hfits.2 hamt
    refine ⟨used ++ used' ++ used'', by simp, rfl, fun _ hpos => ?_⟩
    obtain ⟨hlow, hhigh, hslow⟩ := hamount hpos
    refine ⟨hlow, hhigh, ?_⟩
    rw [drawsSlow_append, drawsSlow_append, hslow]
    simp [hused, hused']

/-- The transactions of a batch have the numbers of their places and random amounts of the range, and one
of them delays the server only if 800 was drawn. -/
theorem enqueueLoop_spec {opt : CliOptions} (hfits : opt.Fits) {nconns : ℕ} {i left : ℕ}
    {calls rest : List RandCall} {batch : List Tran}
    (h : enqueueLoop opt nconns i left calls = some (batch, rest)) :
    ∃ used, calls = used ++ rest ∧
      batch.map Tran.ptrannum = (List.range' i left).map (ptrannumOf nconns) ∧
      (opt.exactAmount = 0 → 1 ≤ opt.maxAmount →
        (∀ tran ∈ batch, 1 ≤ tran.amount ∧ tran.amount ≤ opt.maxAmount) ∧
          ((∃ tran ∈ batch, SlowTrigger tran.amount) ↔ DrawsSlow used)) := by
  induction left generalizing i calls batch with
  | zero =>
    cases h
    exact ⟨[], rfl, rfl, fun _ _ => by simp [DrawsSlow]⟩
  | succ left ih =>
    simp only [enqueueLoop, Option.bind_eq_bind, Option.bind_eq_some_iff] at h
    obtain ⟨⟨tran, calls'⟩, htran, ⟨trans, calls''⟩, htrans, heq⟩ := h
    cases heq
    obtain ⟨used, rfl, hnumber, hamount⟩ := enqueueTran_spec hfits htran
    obtain ⟨used', rfl, hnumbers, hamounts⟩ := ih htrans
    refine ⟨used ++ used', (List.append_assoc ..).symm, ?_, fun hexact hpos => ?_⟩
    · rw [List.map_cons, hnumber, hnumbers, List.range'_succ, List.map_cons]
    · obtain ⟨hlow, hhigh, hslow⟩ := hamount hexact hpos
      obtain ⟨hwithin, hslows⟩ := hamounts hexact hpos
      refine ⟨List.forall_mem_cons.mpr ⟨⟨hlow, hhigh⟩, hwithin⟩, ?_⟩
      rw [List.exists_mem_cons_iff, hslow, hslows, drawsSlow_append]

/-- The random amounts of a batch are what was asked for exactly when 800 was not drawn. -/
theorem enqueueLoop_amounts_iff {opt : CliOptions} (hfits : opt.Fits) {nconns : ℕ} {i left : ℕ}
    {calls : List RandCall} {batch : List Tran}
    (h : enqueueLoop opt nconns i left calls = some (batch, [])) (hexact : opt.exactAmount = 0)
    (hpos : 1 ≤ opt.maxAmount) : (∀ tran ∈ batch, AmountServed opt tran) ↔ ¬DrawsSlow calls := by
  obtain ⟨used, hused, -, hamounts⟩ := enqueueLoop_spec hfits h
  rw [List.append_nil] at hused
  obtain ⟨hwithin, hslow⟩ := hamounts hexact hpos
  rw [hused, ← hslow, not_exists]
  constructor
  · rintro hserved tran ⟨htran, hdelays⟩
    exact (hserved tran htran).2.2 hdelays
  · intro hfree tran htran
    exact ⟨(hwithin tran htran).1, (hwithin tran htran).2, fun hdelays => hfree tran ⟨htran, hdelays⟩⟩

/-- A largest amount below the ones that delay the server is safe. -/
theorem not_drawsSlow_of_maxAmount_lt {opt : CliOptions} (hfits : opt.Fits) {nconns : ℕ} {i left : ℕ}
    {calls : List RandCall} {batch : List Tran}
    (h : enqueueLoop opt nconns i left calls = some (batch, [])) (hexact : opt.exactAmount = 0)
    (hpos : 1 ≤ opt.maxAmount) (hlow : opt.maxAmount < 800) : ¬DrawsSlow calls := by
  obtain ⟨used, hused, -, hamounts⟩ := enqueueLoop_spec hfits h
  rw [List.append_nil] at hused
  obtain ⟨hwithin, hslow⟩ := hamounts hexact hpos
  rw [hused, ← hslow]
  rintro ⟨tran, htran, hdelays, -⟩
  have hhigh := (hwithin tran htran).2
  omega

/-- The numbers of a batch are distinct exactly when the strides do not reach each other. -/
theorem enqueueTransactions_distinct_iff {opt : CliOptions} (hfits : opt.Fits) {nconns ntxns : ℕ}
    (hconns : 1 ≤ nconns) (htrans : ntxns ≤ 2 ^ 63) {calls rest : List RandCall} {batch : List Tran}
    (h : enqueueTransactions opt nconns ntxns calls = some (batch, rest)) :
    (batch.map Tran.ptrannum).Nodup ↔ StridesApart nconns ntxns := by
  obtain ⟨used, -, hnumbers, -⟩ := enqueueLoop_spec hfits h
  rw [hnumbers, ← List.range_eq_range', List.nodup_map_iff_inj_on List.nodup_range,
    ← ptrannumOf_injOn_iff hconns htrans]
  simp only [List.mem_range, Set.InjOn, Set.mem_Iio]

end Amounts

section Completion

/-- A call that draws the first of some users or accounts, if there are any. -/
def firstCalls (count : ℕ) : List RandCall :=
  if count > 0 then [⟨0, count, 0, fun h => ⟨Nat.le_refl 0, h⟩⟩] else []

/-- A call that draws a given amount, if it is not exact. -/
def amountCalls (opt : CliOptions) (amount : ℕ) (hlow : 1 ≤ amount) (hhigh : amount ≤ opt.maxAmount) :
    List RandCall :=
  if opt.exactAmount ≠ 0 then []
  else [⟨1, opt.maxAmount + 1, amount, fun _ => ⟨hlow, Nat.lt_succ_of_le hhigh⟩⟩]

/-- The calls of a transaction with a given amount. -/
def callsFor (opt : CliOptions) (amount : ℕ) (hlow : 1 ≤ amount) (hhigh : amount ≤ opt.maxAmount) :
    List RandCall :=
  firstCalls opt.userCount ++ firstCalls opt.accounts.length ++ amountCalls opt amount hlow hhigh

/-- The first user is drawn. -/
theorem userParams_firstCalls (opt : CliOptions) (rest : List RandCall) :
    ∃ params, userParams opt (firstCalls opt.userCount ++ rest) = some (params, rest) := by
  by_cases hsome : opt.userCount > 0
  · simp only [userParams, firstCalls, if_pos hsome, List.singleton_append, randRange, and_self, if_true,
      Option.map_some]
    exact ⟨_, rfl⟩
  · simp only [userParams, firstCalls, if_neg hsome, List.nil_append]
    exact ⟨_, rfl⟩

/-- The first account is drawn. -/
theorem accountParams_firstCalls (opt : CliOptions) (rest : List RandCall) :
    ∃ params, accountParams opt (firstCalls opt.accounts.length ++ rest) = some (params, rest) := by
  by_cases hsome : opt.accounts.length > 0
  · simp only [accountParams, firstCalls, if_pos hsome, List.singleton_append, randRange, and_self, if_true,
      Option.map_some]
    exact ⟨_, rfl⟩
  · simp only [accountParams, firstCalls, if_neg hsome, List.nil_append]
    exact ⟨_, rfl⟩

section Amount

variable {opt : CliOptions} (hfits : opt.Fits) {amount : ℕ} (hlow : 1 ≤ amount)
  (hhigh : amount ≤ opt.maxAmount) (hfree : amount ≤ 800 ∨ amount > 899)
include hfits hfree

/-- The amount is drawn. -/
theorem getAmount_amountCalls (rest : List RandCall) :
    ∃ amt, getAmount opt (amountCalls opt amount hlow hhigh ++ rest) = some (amt, rest) := by
  have hmax : opt.maxAmount + 1 = (opt.maxAmount + 1) % 2 ^ 64 := by
    have hbound := hfits.2
    omega
  by_cases hexact : opt.exactAmount ≠ 0
  · simp only [getAmount, amountCalls, if_pos hexact, List.nil_append]
    exact ⟨_, rfl⟩
  · simp only [getAmount, amountCalls, if_neg hexact, List.singleton_append, getAmountLoop, true_and]
    rw [if_pos hmax, if_pos hfree]
    exact ⟨_, rfl⟩

/-- With these calls a transaction is made. -/
theorem enqueueTran_callsFor (conn ptrannum : ℕ) (rest : List RandCall) :
    ∃ tran, enqueueTran opt conn ptrannum (callsFor opt amount hlow hhigh ++ rest) = some (tran, rest) := by
  obtain ⟨amt, hamt⟩ := getAmount_amountCalls hfits hlow hhigh hfree rest
  obtain ⟨account, haccount⟩ := accountParams_firstCalls opt (amountCalls opt amount hlow hhigh ++ rest)
  obtain ⟨user, huser⟩ := userParams_firstCalls opt
    (firstCalls opt.accounts.length ++ (amountCalls opt amount hlow hhigh ++ rest))
  simp only [enqueueTran, callsFor, List.append_assoc, Option.bind_eq_bind, huser, haccount, hamt,
    Option.bind_some]
  exact ⟨_, rfl⟩

/-- With these calls over and over a batch is made. -/
theorem enqueueLoop_callsFor (nconns i left : ℕ) :
    ∃ batch, enqueueLoop opt nconns i left
      (List.replicate left (callsFor opt amount hlow hhigh)).flatten = some (batch, []) := by
  induction left generalizing i with
  | zero => exact ⟨[], rfl⟩
  | succ left ih =>
    obtain ⟨batch, hbatch⟩ := ih (i + 1)
    obtain ⟨tran, htran⟩ := enqueueTran_callsFor hfits hlow hhigh hfree (i % nconns)
      (ptrannumOf nconns i) (List.replicate left (callsFor opt amount hlow hhigh)).flatten
    refine ⟨tran :: batch, ?_⟩
    rw [List.replicate_succ, List.flatten_cons, enqueueLoop, htran]
    simp [hbatch]

end Amount

end Completion

/-- **Correctness of the generated batch.** From options that the parser accepts, with a connection at
least, and whatever the random generator answers, the batch is well formed exactly when the strides of the
connections do not reach each other, and no call for an amount returned 800. -/
theorem enqueueTransactions_wellFormed_iff (platform : Platform) {args : List Arg} {opt : CliOptions}
    (haccepted : readCmdline platform args = some opt) (hconns : 1 ≤ opt.numConns)
    {calls : List RandCall} {batch : List Tran}
    (hbatch : enqueueTransactions opt opt.numConns opt.numTrans calls = some (batch, [])) :
    BatchWellFormed opt batch ↔ StridesApart opt.numConns opt.numTrans ∧
      (opt.exactAmount = 0 → 1 ≤ opt.maxAmount → ¬DrawsSlow calls) := by
  have hfits := readCmdline_fits haccepted
  have hdistinct := enqueueTransactions_distinct_iff hfits hconns hfits.1.le hbatch
  constructor
  · intro h
    exact ⟨hdistinct.mp h.distinct, fun hexact hpos =>
      (enqueueLoop_amounts_iff hfits hbatch hexact hpos).mp (h.amounts hexact hpos)⟩
  · rintro ⟨hapart, hdraws⟩
    exact ⟨hdistinct.mpr hapart, fun hexact hpos =>
      (enqueueLoop_amounts_iff hfits hbatch hexact hpos).mpr (hdraws hexact hpos)⟩

/-- A platform with 64-bit sizes. -/
def linux64 : Platform where
  sizeBits := 64
  randMax := 2147483647
  explodeStr str := str.splitOn comma

/-- Three transactions on two connections, of at most 5.00. -/
def smallArgs : List Arg :=
  [.integer 't' ⟨3, by decide⟩, .integer 'x' ⟨2, by decide⟩, .decimal 'A' ⟨500, by decide⟩]

/-- The options of the small batch. -/
def smallOptions : CliOptions := (readCmdline linux64 smallArgs).get (by decide)

/-- Each of its transactions draws one of the four accounts, and an amount. -/
def smallCalls : List RandCall :=
  [⟨0, 4, 1, by decide⟩, ⟨1, 501, 500, by decide⟩, ⟨0, 4, 0, by decide⟩, ⟨1, 501, 1, by decide⟩,
    ⟨0, 4, 3, by decide⟩, ⟨1, 501, 77, by decide⟩]

/-- The small batch. -/
def smallBatch : List Tran :=
  ((enqueueTransactions smallOptions smallOptions.numConns smallOptions.numTrans smallCalls).get (by decide)).1

/-- The small batch is well formed. -/
theorem enqueueTransactions_wellFormed_small :
    smallBatch.map Tran.ptrannum = [0, 1000000, 1] ∧ BatchWellFormed smallOptions smallBatch := by
  have hmade : enqueueTransactions smallOptions smallOptions.numConns smallOptions.numTrans smallCalls =
      some (smallBatch, []) := by rfl
  have haccepted : readCmdline linux64 smallArgs = some smallOptions := (Option.some_get _).symm
  refine ⟨by decide, (enqueueTransactions_wellFormed_iff linux64 haccepted (by decide) hmade).mpr
    ⟨by decide, fun _ _ => ?_⟩⟩
  unfold DrawsSlow
  decide

/-- Two connections with a million transactions each, and one more. -/
def crowdedArgs : List Arg := [.integer 'x' ⟨2, by decide⟩, .integer 't' ⟨2000001, by decide⟩]

/-- The options of the crowded batch. -/
def crowdedOptions : CliOptions := (readCmdline linux64 crowdedArgs).get (by decide)

/-- One transaction, and the other options as they are. -/
def slowArgs : List Arg := [.integer 't' ⟨1, by decide⟩]

/-- The options of the slow batch. -/
def slowOptions : CliOptions := (readCmdline linux64 slowArgs).get (by decide)

/-- An account, and the amount 8.00. -/
def slowCalls : List RandCall := [⟨0, 4, 0, by decide⟩, ⟨1, 10001, 800, by decide⟩]

/-- The last transaction of the crowded batch has the number of its second one, whatever is drawn, and the
amount of the slow batch delays the server. -/
theorem enqueueTransactions_malformed :
    (readCmdline linux64 crowdedArgs = some crowdedOptions ∧
      ptrannumOf crowdedOptions.numConns 1 = ptrannumOf crowdedOptions.numConns 2000000 ∧
      ∃ calls batch, enqueueTransactions crowdedOptions crowdedOptions.numConns crowdedOptions.numTrans calls =
        some (batch, []) ∧ ¬BatchWellFormed crowdedOptions batch) ∧
    (readCmdline linux64 slowArgs = some slowOptions ∧
      ∃ batch, enqueueTransactions slowOptions slowOptions.numConns slowOptions.numTrans slowCalls =
        some (batch, []) ∧ batch.map Tran.amount = [800] ∧ ¬BatchWellFormed slowOptions batch) := by
  refine ⟨⟨(Option.some_get _).symm, by decide, ?_⟩, (Option.some_get _).symm, ?_⟩
  · have hfits : crowdedOptions.Fits := ⟨by decide, by decide⟩
    obtain ⟨batch, hbatch⟩ := enqueueLoop_callsFor hfits (Nat.le_refl 1) (by decide) (by decide)
      crowdedOptions.numConns 0 crowdedOptions.numTrans
    refine ⟨_, batch, hbatch, fun h => ?_⟩
    have hapart := (enqueueTransactions_distinct_iff hfits (by decide) (by decide) hbatch).mp h.distinct
    exact absurd hapart (by decide)
  · refine ⟨_, rfl, by decide, fun h => ?_⟩
    obtain ⟨-, -, hfree⟩ := h.amounts (by decide) (by decide) _ List.mem_cons_self
    exact hfree (by decide)

end LibMonetra.Load
