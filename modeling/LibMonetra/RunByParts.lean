import LibMonetra.Wakeup

/-!
# A whole dictionary, or member by member

`LM_trans_run` copies a dictionary that its caller made. Its documentation calls it the equivalent
of `LM_trans_new`, `LM_trans_set_param` for every member and `LM_trans_send`, which rebuilds the
dictionary with the flags of the library. The two agree while the rebuilt dictionary keeps every
member and is taken for a ping when the copy is.
-/

namespace LibMonetra

open Foundation

namespace HashDict

/-- `LM_trans_set_param` for every member: an empty key is refused. -/
def setAll (dict : HashDict) (members : List (Bytes × Option Bytes)) : HashDict :=
  members.foldl (fun dict member => if member.1 ≠ [] then dict.insert member.1 member.2 else dict) dict

/-- Whether a value is the one that asks for a ping. -/
def isPing (value : Option Bytes) : Prop :=
  ∃ action, value = some action ∧ strCaseeq action (ascii "ping") = true

/-- Whether `LM_trans_structure` puts `PING` in the place of the dictionary. -/
def asksPing (dict : HashDict) : Prop := dict.numKeys = 1 ∧ isPing (dict.getDirect (ascii "action"))

instance (value : Option Bytes) : Decidable (isPing value) :=
  match value with
  | none => isFalse fun ⟨_, h, _⟩ => nomatch h
  | some action =>
    decidable_of_iff (strCaseeq action (ascii "ping") = true)
      ⟨fun h => ⟨action, rfl, h⟩, fun ⟨_, h, hping⟩ => Option.some.inj h ▸ hping⟩

instance (dict : HashDict) : Decidable dict.asksPing := inferInstanceAs (Decidable (_ ∧ _))

/-- Two dictionaries whose requests have the same data, up to the order of the parameters. -/
def SameRequest (dict dict' : HashDict) : Prop :=
  dict.asksPing ∧ dict'.asksPing ∨
    ¬dict.asksPing ∧ ¬dict'.asksPing ∧ dict.entries.Perm dict'.entries

instance (dict dict' : HashDict) : Decidable (dict.SameRequest dict') :=
  inferInstanceAs (Decidable (_ ∨ _))

/-- No key is empty, and no two members have keys that agree ignoring case. -/
def Apart (dict : HashDict) : Prop :=
  (∀ entry ∈ dict.entries, entry.1 ≠ []) ∧
    (dict.entries.map Prod.fst).Pairwise fun left right => strCaseeq left right = false

/-- A lone member asks for a ping when the case of its key is ignored. -/
def LonePing (dict : HashDict) : Prop :=
  dict.entries.length = 1 ∧
    ∀ entry ∈ dict.entries, strCaseeq entry.1 (ascii "action") = true ∧ isPing entry.2

/-- The dictionary survives being rebuilt from its members. One that asks for a ping has one key, of
which the last value stays; any other keeps all its members apart and is not taken for a ping. -/
def Rebuilds (dict : HashDict) (members : List (Bytes × Option Bytes)) : Prop :=
  if dict.asksPing then isPing (members.getLast?.bind Prod.snd) else dict.Apart ∧ ¬dict.LonePing

instance (dict : HashDict) : Decidable dict.Apart := inferInstanceAs (Decidable (_ ∧ _))

instance (dict : HashDict) : Decidable dict.LonePing := inferInstanceAs (Decidable (_ ∧ _))

instance (dict : HashDict) (members : List (Bytes × Option Bytes)) : Decidable (dict.Rebuilds members) :=
  inferInstanceAs (Decidable (if dict.asksPing then isPing (members.getLast?.bind Prod.snd)
    else dict.Apart ∧ ¬dict.LonePing))

variable {dict : HashDict} {members : List (Bytes × Option Bytes)}

/-- An insertion adds at most one entry, and one only for a key that is absent. -/
theorem length_insert_le (hsingle : dict.multiValue = false) (key : Bytes) (value : Option Bytes) :
    (dict.insert key value).entries.length ≤ dict.entries.length + 1 ∧
      ((dict.insert key value).entries.length = dict.entries.length + 1 → dict.hasKey key = false) := by
  cases hkey : dict.hasKey key with
  | false =>
    rw [dict.insert_absent value hkey]
    exact ⟨by simp, fun _ => rfl⟩
  | true =>
    rw [dict.insert_present value hsingle hkey, List.length_map]
    exact ⟨by omega, by omega⟩

/-- Members add at most one entry each; when each adds one, none has an empty key and the entries are
the members themselves. -/
theorem length_setAll_le (dict : HashDict) (members : List (Bytes × Option Bytes))
    (hsingle : dict.multiValue = false) :
    (dict.setAll members).entries.length ≤ dict.entries.length + members.length ∧
      ((dict.setAll members).entries.length = dict.entries.length + members.length →
        (∀ member ∈ members, member.1 ≠ []) ∧ (dict.setAll members).entries = dict.entries ++ members) := by
  induction members generalizing dict with
  | nil => exact ⟨le_refl _, fun _ => ⟨by simp, (List.append_nil _).symm⟩⟩
  | cons member rest ih =>
    rw [setAll, List.foldl_cons]
    by_cases hkey : member.1 ≠ []
    · rw [if_pos hkey]
      obtain ⟨hle, hfresh⟩ := length_insert_le hsingle member.1 member.2
      obtain ⟨hrest, hall⟩ := ih (dict.insert member.1 member.2)
        ((dict.insert_flags member.1 member.2).2.1.trans hsingle)
      rw [setAll] at hrest hall
      rw [List.length_cons]
      refine ⟨by omega, fun heq => ?_⟩
      obtain ⟨hkeys, hentries⟩ := hall (by omega)
      rw [dict.insert_absent member.2 (hfresh (by omega))] at hentries
      exact ⟨List.forall_mem_cons.mpr ⟨hkey, hkeys⟩, by rw [hentries, List.append_assoc]; rfl⟩
    · rw [if_neg hkey]
      obtain ⟨hrest, -⟩ := ih dict hsingle
      rw [setAll] at hrest
      rw [List.length_cons]
      exact ⟨by omega, by omega⟩

/-- Members with keys of their own are all kept. -/
theorem entries_setAll (dict : HashDict) (hkeys : ∀ member ∈ members, member.1 ≠ [])
    (hapart : ((dict.entries ++ members).map Prod.fst).Pairwise
      fun left right => dict.sameKey left right = false) :
    (dict.setAll members).entries = dict.entries ++ members := by
  induction members generalizing dict with
  | nil => exact (List.append_nil _).symm
  | cons member rest ih =>
    have habsent : dict.hasKey member.1 = false := by
      rw [List.map_append, List.pairwise_append] at hapart
      refine List.any_eq_false.mpr fun entry hentry => ?_
      rw [hapart.2.2 entry.1 (List.mem_map_of_mem hentry) member.1 List.mem_cons_self]
      exact Bool.false_ne_true
    have hentries := dict.insert_absent member.2 habsent
    have hflag : (dict.insert member.1 member.2).sameKey = dict.sameKey := by
      funext left right
      rw [sameKey, (dict.insert_flags member.1 member.2).1, sameKey]
    rw [setAll, List.foldl_cons, if_pos (hkeys member List.mem_cons_self)]
    have htail := ih (dict.insert member.1 member.2)
      (fun other hother => hkeys other (List.mem_cons_of_mem _ hother))
      (by rw [hentries, hflag, List.append_assoc]; exact hapart)
    rw [setAll] at htail
    rw [htail, hentries, List.append_assoc]
    rfl

/-- Setting members leaves the flags of a dictionary alone. -/
theorem setAll_flags (dict : HashDict) (members : List (Bytes × Option Bytes)) :
    (dict.setAll members).casecmp = dict.casecmp ∧ (dict.setAll members).multiValue = dict.multiValue ∧
      (dict.setAll members).multiGetlast = dict.multiGetlast := by
  induction members generalizing dict with
  | nil => exact ⟨rfl, rfl, rfl⟩
  | cons member rest ih =>
    obtain ⟨hcasecmp, hmulti, hlast⟩ := dict.insert_flags member.1 member.2
    rw [setAll, List.foldl_cons]
    split
    · obtain ⟨hcasecmp', hmulti', hlast'⟩ := ih (dict.insert member.1 member.2)
      exact ⟨hcasecmp'.trans hcasecmp, hmulti'.trans hmulti, hlast'.trans hlast⟩
    · exact ih dict

/-- Of members that share one key the last value stays. -/
theorem entries_setAll_shared {key : Bytes} (hkey : key ≠ []) (hne : members ≠ [])
    (hshared : ∀ member ∈ members, member.1 = key) :
    (create.setAll members).entries = [(key, members.getLast?.bind Prod.snd)] := by
  induction members using List.reverseRecOn with
  | nil => exact absurd rfl hne
  | append_singleton front last ih =>
    have hlast : last.1 = key := hshared last (List.mem_append_right _ List.mem_cons_self)
    have hstep : create.setAll (front ++ [last]) = (create.setAll front).insert key last.2 := by
      rw [setAll, List.foldl_append, List.foldl_cons, List.foldl_nil, hlast, if_pos hkey]
      rfl
    have hvalue : (front ++ [last]).getLast?.bind Prod.snd = last.2 := by simp
    rw [hstep, hvalue]
    by_cases hfront : front = []
    · subst hfront
      exact insert_absent _ _ rfl
    · have hentries := ih hfront fun member hmember => hshared member (List.mem_append_left _ hmember)
      have hpresent : (create.setAll front).hasKey key = true := by
        rw [hasKey, hentries, List.any_cons, sameKey_self, Bool.true_or]
      rw [insert_present _ _ (setAll_flags create front).2.1 hpresent, hentries, List.map_singleton,
        if_pos (sameKey_self _ key)]

end HashDict

/-- The dictionary that the members make, with the flags of the library. -/
def Dict.ofMembers (members : List (Bytes × Option Bytes)) : Dict :=
  ⟨HashDict.create.setAll members, (HashDict.setAll_flags .create members).2⟩

/-- With one value for each key, only a lone action asks for a ping. -/
theorem Dict.asksPing_iff (dict : Dict) : dict.asksPing ↔ ∃ entry, dict.entries = [entry] ∧
    dict.sameKey entry.1 (ascii "action") = true ∧ HashDict.isPing entry.2 := by
  have hlength : dict.numKeys = dict.entries.length := by
    rw [← dict.length_keys, keys, HashDict.keys, List.length_map]
  rw [HashDict.asksPing, hlength, dict.getDirect_eq]
  constructor
  · rintro ⟨hone, hping⟩
    obtain ⟨entry, hentry⟩ := List.length_eq_one_iff.mp hone
    rw [hentry, List.find?_singleton] at hping
    cases hsame : dict.sameKey entry.1 (ascii "action") with
    | false =>
      rw [hsame] at hping
      obtain ⟨_, hnone, _⟩ := hping
      cases hnone
    | true =>
      rw [hsame] at hping
      exact ⟨entry, hentry, hsame, hping⟩
  · rintro ⟨entry, hentry, hsame, hping⟩
    rw [hentry, List.find?_singleton, hsame]
    exact ⟨rfl, hping⟩

namespace HashDict

variable {dict : HashDict} {members : List (Bytes × Option Bytes)}

/-- A dictionary that asks for a ping has one key, which is the action under some spelling. -/
theorem asksPing_key (h : dict.asksPing) : ∃ key, key ≠ [] ∧
    strCaseeq key (ascii "action") = true ∧ ∀ entry ∈ dict.entries, entry.1 = key := by
  obtain ⟨hone, action, haction, -⟩ := h
  obtain ⟨key, hkey⟩ := List.length_eq_one_iff.mp hone
  have hshared : ∀ entry ∈ dict.entries, entry.1 = key := by
    intro entry hentry
    have hmem : entry.1 ∈ dict.keys.dedup := List.mem_dedup.mpr (List.mem_map_of_mem hentry)
    rw [hkey] at hmem
    exact List.mem_singleton.mp hmem
  obtain ⟨entry, hfound, -⟩ := Option.bind_eq_some_iff.mp haction
  have hof : entry ∈ dict.entriesOf (ascii "action") := by
    split at hfound
    · exact List.mem_of_getLast? hfound
    · exact List.mem_of_head? hfound
  obtain ⟨hentry, hsame⟩ := List.mem_filter.mp hof
  rw [hshared entry hentry] at hsame
  have hcase : strCaseeq key (ascii "action") = true := by
    unfold sameKey keysAgree at hsame
    split at hsame
    · exact hsame
    · rw [beq_iff_eq] at hsame
      rw [hsame]
      rfl
  refine ⟨key, ?_, hcase, hshared⟩
  rintro rfl
  exact absurd hcase (by decide)

/-- A dictionary that asks for a ping still does when it is rebuilt if the last value is the one that
asks for it. -/
theorem sameRequest_iff_of_asksPing (h : dict.asksPing) (hmembers : members.Perm dict.entries)
    (hne : dict.entries ≠ []) : dict.SameRequest (create.setAll members) ↔
      isPing (members.getLast?.bind Prod.snd) := by
  obtain ⟨key, hkey, hcase, hshared⟩ := asksPing_key h
  have hentries : (Dict.ofMembers members).entries = [(key, members.getLast?.bind Prod.snd)] :=
    entries_setAll_shared hkey (fun hnil => hne (List.nil_perm.mp (hnil ▸ hmembers)))
      fun member hmember => hshared member (hmembers.mem_iff.mp hmember)
  have hcasecmp : (Dict.ofMembers members).sameKey key (ascii "action") = true := by
    rw [sameKey, Dict.ofMembers, (setAll_flags create members).1]
    exact hcase
  have hbuilt := (Dict.ofMembers members).asksPing_iff
  rw [hentries] at hbuilt
  constructor
  · rintro (⟨-, hping⟩ | ⟨hno, -⟩)
    · obtain ⟨entry, heq, -, hvalue⟩ := hbuilt.mp hping
      rw [List.cons.injEq] at heq
      rw [← heq.1] at hvalue
      exact hvalue
    · exact absurd h hno
  · intro hping
    exact Or.inl ⟨h, hbuilt.mpr ⟨_, rfl, hcasecmp, hping⟩⟩

/-- A dictionary of parameters is rebuilt when no two members collide, unless a lone member turns
into a ping. -/
theorem sameRequest_iff_of_not_asksPing (h : ¬dict.asksPing) (hmembers : members.Perm dict.entries) :
    dict.SameRequest (create.setAll members) ↔ dict.Apart ∧ ¬dict.LonePing := by
  have hflags := setAll_flags create members
  have hsame : (create.setAll members).sameKey = strCaseeq := by
    funext left right
    rw [sameKey, hflags.1]
    rfl
  have happart : (members.map Prod.fst).Pairwise (fun left right => strCaseeq left right = false) ↔
      (dict.entries.map Prod.fst).Pairwise fun left right => strCaseeq left right = false := by
    refine (hmembers.map Prod.fst).pairwise_iff fun hdiffer => ?_
    rw [strCaseeq, beq_eq_false_iff_ne] at hdiffer ⊢
    exact hdiffer.symm
  have hping : (create.setAll members).entries = members →
      ((create.setAll members).asksPing ↔ dict.LonePing) := by
    intro hentries
    have hbuilt : (create.setAll members).asksPing ↔ _ := (Dict.ofMembers members).asksPing_iff
    rw [hbuilt, Dict.ofMembers, hentries, hsame, LonePing]
    constructor
    · rintro ⟨entry, heq, hvalue⟩
      rw [heq] at hmembers
      rw [← List.singleton_perm.mp hmembers]
      exact ⟨rfl, fun other hother => List.mem_singleton.mp hother ▸ hvalue⟩
    · rintro ⟨hone, hall⟩
      obtain ⟨entry, heq⟩ := List.length_eq_one_iff.mp hone
      rw [heq] at hmembers hall
      exact ⟨entry, List.perm_singleton.mp hmembers, hall entry List.mem_cons_self⟩
  constructor
  · rintro (⟨hno, -⟩ | ⟨-, hdata, hperm⟩)
    · exact absurd hno h
    · have hlength : (create.setAll members).entries.length = members.length :=
        hperm.length_eq.symm.trans hmembers.length_eq.symm
      obtain ⟨hkeys, hentries⟩ := (length_setAll_le create members rfl).2
        (by rw [hlength]; simp [create])
      have hentries : (create.setAll members).entries = members := hentries
      refine ⟨⟨fun entry hentry => hkeys entry (hmembers.mem_iff.mpr hentry), ?_⟩,
        fun hlone => hdata ((hping hentries).mpr hlone)⟩
      have hdistinct := (create.setAll members).distinct hflags.2.1
      rw [hentries, hflags.1] at hdistinct
      exact happart.mp hdistinct
  · rintro ⟨⟨hkeys, hdistinct⟩, hlone⟩
    have hentries : (create.setAll members).entries = members :=
      entries_setAll create (fun member hmember => hkeys member (hmembers.mem_iff.mp hmember))
        (happart.mpr hdistinct)
    exact Or.inr ⟨h, fun hasks => hlone ((hping hentries).mp hasks), by rw [hentries]; exact hmembers.symm⟩

/-- When the rebuilt dictionary makes the same request. -/
theorem sameRequest_iff (hmembers : members.Perm dict.entries) (hne : dict.numKeys ≠ 0) :
    dict.SameRequest (create.setAll members) ↔ dict.Rebuilds members := by
  unfold Rebuilds
  split
  · rename_i hasks
    exact sameRequest_iff_of_asksPing hasks hmembers (mt dict.numKeys_eq_zero.mpr hne)
  · rename_i hasks
    exact sameRequest_iff_of_not_asksPing hasks hmembers

end HashDict

variable (lib : Mstdlib)

/-- What a call that runs a transaction leaves: the connection, the transaction it returns, and
whether `LM_trans_send` goes on into `LM_conn_connect`. -/
structure RunResult where
  conn : Conn
  trans : Option Ptr
  connect : Bool

/-- `LM_trans_run`. -/
def transRun (c : Conn) (draws : List RandDraw) (params : HashDict) : RunResult :=
  match transRunNew c draws params with
  | none => ⟨c, none, false⟩
  | some (c, p) =>
    let sent := transSend lib c p
    if sent.ok then ⟨sent.conn, some p, sent.connect⟩
    else ⟨transDelete lib sent.conn p, none, false⟩

/-- `LM_trans_set_param` for every member. -/
def transSetParams (c : Conn) (p : Ptr) (members : List (Bytes × Option Bytes)) : Conn :=
  members.foldl (fun c member => (transSetParam c p member.1 member.2).1) c

/-- The equivalent of the documentation. The transaction counts as run when `LM_trans_send` accepts
it. -/
def transRunByParts (c : Conn) (draws : List RandDraw) (members : List (Bytes × Option Bytes)) :
    RunResult :=
  match transNew c draws with
  | none => ⟨c, none, false⟩
  | some (c, p) =>
    let sent := transSend lib (transSetParams c p members) p
    ⟨sent.conn, if sent.ok then some p else none, sent.connect⟩

/-- A connection in which a transaction has the given request parameters. -/
def Conn.setRequest (c : Conn) (p : Ptr) (params : Option HashDict) : Conn :=
  { c with heap := Function.update c.heap p ((c.heap p).map fun t => { t with requestParams := params }) }

/-- A connection apart from the request of one transaction, from the bytes that wait to be written
and from the record of the run. -/
def Conn.withoutRequest (c : Conn) (p : Ptr) : Conn := { c.setRequest p none with outbuf := [], trace := [] }

/-- Two connections have the request of one transaction, each from its own dictionary: it waits to be
framed, or it is the last frame of outputs that agree before it. -/
inductive Requests (p : Ptr) (params params' : HashDict) (c c' : Conn) : Prop
  | waiting (t : Trans) : c.heap p = some { t with requestParams := some params } →
      c'.heap p = some { t with requestParams := some params' } → c'.outbuf = c.outbuf →
      Requests p params params' c c'
  | framed (t : Trans) (before : Bytes) : c.heap p = some t →
      c.outbuf = before ++ requestFrame lib t.transId params →
      c'.outbuf = before ++ requestFrame lib t.transId params' → Requests p params params' c c'

/-- `LM_trans_run` does what the calls for the members do: it returns the same transaction, the
connections and the status of the transaction are the same, and the requests differ in the order of
the parameters only. When it returns `NULL` the connection is as before. -/
structure RunsAlike (c : Conn) (params : HashDict) (members : List (Bytes × Option Bytes))
    (run parts : RunResult) : Prop where
  trans : run.trans = parts.trans
  connect : run.connect = parts.connect
  refused : run.trans = none → run.conn = c
  conn : ∀ p, run.trans = some p → run.conn.withoutRequest p = parts.conn.withoutRequest p
  requests : ∀ p, run.trans = some p →
    Requests lib p params (HashDict.create.setAll members) run.conn parts.conn
  data : params.SameRequest (HashDict.create.setAll members)

section SetRequest

variable {c : Conn} {p q : Ptr} {t : Trans}

/-- The last parameters count. -/
theorem Conn.setRequest_setRequest (c : Conn) (p : Ptr) (params params' : Option HashDict) :
    (c.setRequest p params).setRequest p params' = c.setRequest p params' := by
  unfold setRequest
  simp [Function.comp_def]

/-- A transaction has the parameters it was given. -/
theorem Conn.setRequest_self (ht : c.heap p = some t) (params : Option HashDict) :
    (c.setRequest p params).heap p = some { t with requestParams := params } := by
  simp [setRequest, ht]

/-- The turn of the loop for one transaction leaves the parameters of another alone. -/
theorem sendTurn_setRequest (h : q ≠ p) (rest : List Ptr) (params : Option HashDict) :
    armTimeoutTimer (transStructure lib (markPending { c.setRequest p params with transReady := rest } q) q) q =
      (armTimeoutTimer (transStructure lib (markPending { c with transReady := rest } q) q) q).setRequest
        p params := by
  have hother := Function.update_of_ne h ((c.heap p).map fun t => { t with requestParams := params }) c.heap
  cases hq : c.heap q with
  | none => simp [markPending, transStructure, armTimeoutTimer, Conn.setRequest, hother, hq]
  | some t =>
    by_cases hto : t.timeoutS = 0 <;>
      simp [markPending, transStructure, armTimeoutTimer, Conn.setRequest, hother, hq, hto, h.symm,
        Function.update_comm h]

/-- The turn of the loop for one transaction leaves another alone. -/
theorem sendTurn_heap (h : q ≠ p) (rest : List Ptr) :
    (armTimeoutTimer (transStructure lib (markPending { c with transReady := rest } q) q) q).heap p =
      c.heap p := by
  cases hq : c.heap q with
  | none => simp [markPending, transStructure, armTimeoutTimer, hq]
  | some t =>
    by_cases hto : t.timeoutS = 0 <;>
      simp [markPending, transStructure, armTimeoutTimer, hq, hto, h.symm]

/-- The turns before the last one leave the last transaction alone. -/
theorem sendMessagesLoop_setRequest {rest : List Ptr} (hp : p ∉ rest) :
    ∃ c' : Conn, c'.heap p = c.heap p ∧ ∀ params, sendMessagesLoop lib (rest ++ [p]) (c.setRequest p params) =
      sendMessagesLoop lib [p] (c'.setRequest p params) := by
  induction rest generalizing c with
  | nil => exact ⟨c, rfl, fun _ => rfl⟩
  | cons q rest ih =>
    rw [List.mem_cons, not_or] at hp
    have hq : q ≠ p := fun heq => hp.1 heq.symm
    let turn := armTimeoutTimer
      (transStructure lib (markPending { c with transReady := rest ++ [p] } q) q) q
    obtain ⟨c', hheap, hloop⟩ := ih (c := { turn with transPending := turn.transPending ++ [q] }) hp.2
    refine ⟨c', hheap.trans (sendTurn_heap lib hq _), fun params => ?_⟩
    rw [List.cons_append, sendMessagesLoop, sendTurn_setRequest lib hq]
    exact hloop params

/-- The last turn frames the request and forgets the parameters. -/
theorem sendMessagesLoop_last (ht : c.heap p = some t) :
    ∃ (c' : Conn) (t' : Trans), c'.heap p = some t' ∧ ∀ params,
      sendMessagesLoop lib [p] (c.setRequest p params) =
      { c' with
        outbuf := c'.outbuf ++ requestFrame lib t'.transId (params.getD .create)
        trace := c'.trace ++
          [.framed p t'.owner c'.status (requestFrame lib t'.transId (params.getD .create))] } := by
  by_cases hto : t.timeoutS = 0
  · refine ⟨{ c with
      heap := Function.update c.heap p (some { t with status := .pending, requestParams := none })
      transReady := [], transPending := c.transPending ++ [p] }, _, Function.update_self .., fun params => ?_⟩
    simp [sendMessagesLoop, markPending, transStructure, armTimeoutTimer, Conn.setRequest, ht, hto,
      Trans.request]
  · refine ⟨{ c with
      heap := Function.update c.heap p
        (some { t with status := .pending, requestParams := none, timeoutTimer := true })
      transReady := [], transPending := c.transPending ++ [p]
      transTimers := c.transTimers ++ [(p, t.timeoutS * 1000 % 2 ^ 64)] }, _, Function.update_self ..,
      fun params => ?_⟩
    simp [sendMessagesLoop, markPending, transStructure, armTimeoutTimer, Conn.setRequest, ht, hto,
      Trans.request]

/-- `LM_trans_send_messages` with a transaction at the end of the queue: it leaves everything as it is,
or it frames the request of that transaction last. -/
theorem transSendMessages_setRequest {rest : List Ptr} (hready : c.transReady = rest ++ [p])
    (hp : p ∉ rest) (ht : c.heap p = some t) :
    (∃ down, ∀ params, transSendMessages lib (c.setRequest p params) = (c.setRequest p params, down)) ∨
      ∃ (c' : Conn) (t' : Trans), c'.heap p = some t' ∧ ∀ params,
        transSendMessages lib (c.setRequest p params) =
        ({ c' with
          outbuf := c'.outbuf ++ requestFrame lib t'.transId (params.getD .create)
          trace := c'.trace ++
            [.framed p t'.owner c'.status (requestFrame lib t'.transId (params.getD .create))] }, false) := by
  by_cases hdown : c.status = .disconnected
  · exact Or.inl ⟨true, fun params => if_pos hdown⟩
  · by_cases hup : c.status = .connected
    · obtain ⟨c1, hheap, hloop⟩ := sendMessagesLoop_setRequest lib (c := c) hp
      obtain ⟨c2, t', ht', hlast⟩ := sendMessagesLoop_last lib (hheap.trans ht)
      refine Or.inr ⟨triggerSignal (timerStop c2 (c2.transPending ≠ [])) (c.outbuf = []), t', ht',
        fun params => ?_⟩
      have hstatus : (c.setRequest p params).status = c.status := rfl
      have hqueue : (c.setRequest p params).transReady = c.transReady := rfl
      have hout : (c.setRequest p params).outbuf = c.outbuf := rfl
      rw [transSendMessages, hstatus, if_neg hdown, if_neg (not_not_intro hup), hqueue, hready,
        hloop params, hlast params, hout]
      simp [timerStop, triggerSignal, requestFrame]
    · refine Or.inl ⟨false, fun params => ?_⟩
      exact (if_neg hdown).trans (if_pos hup)

/-- A new transaction with parameters is accepted, and sent behind the others. -/
theorem transSend_setRequest (ht : c.heap p = some t) (hnew : t.status = .new) :
    ∃ (c' : Conn) (t' : Trans), c'.heap p = some t' ∧ c'.transReady = c.transReady ++ [p] ∧ ∀ params,
      (params.getD .create).numKeys ≠ 0 → transSend lib (c.setRequest p params) p =
        ⟨(transSendMessages lib (c'.setRequest p params)).1, true,
          (transSendMessages lib (c'.setRequest p params)).2⟩ := by
  refine ⟨{ c with
    heap := Function.update c.heap p (some { t with status := .ready })
    transNew := c.transNew.erase p, transReady := c.transReady ++ [p]
    trace := c.trace ++ [.accepted p] }, _, Function.update_self .., rfl, fun params hparams => ?_⟩
  have hnum : (params.map HashDict.numKeys).getD 0 ≠ 0 := by
    cases params with
    | none => exact absurd rfl hparams
    | some dict => exact hparams
  rw [transSend, Conn.setRequest_self ht]
  simp only [hnew, Trans.numParams, hnum, ne_eq, not_true_eq_false, or_self, if_false]
  simp [Conn.setRequest, ht]

/-- The calls for the members leave a dictionary made of them. -/
theorem transSetParams_eq (ht : c.heap p = some t) (hnew : t.status = .new)
    (members : List (Bytes × Option Bytes)) : ∃ params, transSetParams c p members = c.setRequest p params ∧
      params.getD .create = (t.requestParams.getD .create).setAll members := by
  induction members generalizing c t with
  | nil =>
    have hsame :
        Function.update c.heap p ((c.heap p).map fun u => { u with requestParams := t.requestParams }) =
        c.heap := by
      rw [ht, Option.map_some, ← ht, Function.update_eq_self]
    exact ⟨t.requestParams, by rw [Conn.setRequest, hsame]; rfl, rfl⟩
  | cons member rest ih =>
    by_cases hkey : member.1 ≠ []
    · let dict := (t.requestParams.getD .create).insert member.1 member.2
      have hstep : (transSetParam c p member.1 member.2).1 = c.setRequest p (some dict) := by
        simp [transSetParam, Conn.setRequest, ht, hkey, hnew, dict]
      obtain ⟨params, heq, hdict⟩ := ih (Conn.setRequest_self ht (some dict)) hnew
      refine ⟨params, ?_, ?_⟩
      · rw [transSetParams, List.foldl_cons, hstep]
        exact heq.trans (Conn.setRequest_setRequest ..)
      · rw [hdict, HashDict.setAll, HashDict.setAll, List.foldl_cons, if_pos hkey]
        rfl
    · have hstep : (transSetParam c p member.1 member.2).1 = c := by
        simp [transSetParam, ht, hkey]
      obtain ⟨params, heq, hdict⟩ := ih ht hnew
      refine ⟨params, ?_, ?_⟩
      · rw [transSetParams, List.foldl_cons, hstep]
        exact heq
      · rw [hdict, HashDict.setAll, HashDict.setAll, List.foldl_cons, if_neg hkey]

/-- Two transactions that differ in their parameters are sent alike. -/
theorem transSend_alike (ht : c.heap p = some t) (hnew : t.status = .new) (hp : p ∉ c.transReady)
    {params params' : HashDict} (hparams : params.numKeys ≠ 0) (hparams' : params'.numKeys ≠ 0)
    {sent sent' : SendResult} (hsent : sent = transSend lib (c.setRequest p (some params)) p)
    (hsent' : sent' = transSend lib (c.setRequest p (some params')) p) :
    sent.ok = true ∧ sent'.ok = true ∧ sent.connect = sent'.connect ∧
      sent.conn.withoutRequest p = sent'.conn.withoutRequest p ∧
        Requests lib p params params' sent.conn sent'.conn := by
  obtain ⟨c1, t1, ht1, hready, hsend⟩ := transSend_setRequest lib ht hnew
  rw [hsend (some params) hparams] at hsent
  rw [hsend (some params') hparams'] at hsent'
  subst hsent hsent'
  rcases transSendMessages_setRequest lib hready hp ht1 with ⟨down, hkept⟩ | ⟨c2, t2, ht2, hframed⟩
  · rw [hkept, hkept]
    refine ⟨rfl, rfl, rfl, ?_, .waiting t1 (Conn.setRequest_self ht1 _) (Conn.setRequest_self ht1 _) rfl⟩
    unfold Conn.withoutRequest
    rw [Conn.setRequest_setRequest, Conn.setRequest_setRequest]
  · rw [hframed, hframed]
    exact ⟨rfl, rfl, rfl, rfl, .framed t2 c2.outbuf ht2 rfl rfl⟩

end SetRequest

section Alike

variable {draws : List RandDraw} {draw : RandDraw} {params : HashDict}
  {members : List (Bytes × Option Bytes)}

/-- Dictionaries of the same request are both empty or both not. -/
theorem HashDict.SameRequest.numKeys_ne_zero {dict dict' : HashDict} (h : dict.SameRequest dict')
    (hne : dict.numKeys ≠ 0) : dict'.numKeys ≠ 0 := by
  rcases h with ⟨-, hping, -⟩ | ⟨-, -, hperm⟩
  · rw [hping]
    exact Nat.one_ne_zero
  · rw [Ne, numKeys_eq_zero] at hne ⊢
    rintro hnil
    rw [hnil] at hperm
    exact hne (List.perm_nil.mp hperm)

/-- `LM_trans_new` with an unused id creates a transaction that has no parameters. -/
theorem transNew_eq (c : Conn) (hdraw : unusedDraw c draws = some draw) :
    ∃ c' : Conn, transNew c draws = some (c', c.nextPtr) ∧
      c'.heap c.nextPtr = some (Trans.fresh draw.val .user) ∧ c'.transReady = c.transReady := by
  rw [transNew, transNewInternal, hdraw]
  exact ⟨_, rfl, Function.update_self .., rfl⟩

/-- With an unused id `LM_trans_run` returns the transaction it creates. -/
theorem transRun_accepted {c : Conn} (hnext : c.nextPtr ∉ c.transReady)
    (hdraw : unusedDraw c draws = some draw) (hparams : params.numKeys ≠ 0) :
    (transRun lib c draws params).trans = some c.nextPtr := by
  obtain ⟨c1, hcreated, hlive, hready⟩ := transNew_eq c hdraw
  have hcopied : transRunNew c draws params = some (c1.setRequest c.nextPtr (some params), c.nextPtr) := by
    simp [transRunNew, hparams, hcreated, hlive, Conn.setRequest]
  obtain ⟨hok, -⟩ := transSend_alike lib hlive rfl (hready ▸ hnext) hparams hparams rfl rfl
  rw [transRun, hcopied]
  simp only [hok, if_true]

/-- When `LM_trans_run` returns `NULL`, the connection is as before the call. -/
theorem transRun_null {c : Conn} (hnext : c.nextPtr ∉ c.transReady)
    (hnull : (transRun lib c draws params).trans = none) : (transRun lib c draws params).conn = c := by
  cases hcopied : transRunNew c draws params with
  | none => rw [transRun, hcopied]
  | some created =>
    obtain ⟨draw, hdraw, -, -⟩ := transRunNew_spec hcopied
    have hparams : params.numKeys ≠ 0 := by
      intro hempty
      rw [transRunNew, if_pos hempty] at hcopied
      cases hcopied
    rw [transRun_accepted lib hnext hdraw hparams] at hnull
    cases hnull

/-- With dictionaries of the same request, `LM_trans_run` does what the calls for the members do. -/
theorem runsAlike_of_sameRequest {c : Conn} (hnext : c.nextPtr ∉ c.transReady)
    (hdraw : unusedDraw c draws = some draw) (hparams : params.numKeys ≠ 0)
    (hdata : params.SameRequest (HashDict.create.setAll members)) :
    RunsAlike lib c params members (transRun lib c draws params) (transRunByParts lib c draws members) := by
  have hbuilt := hdata.numKeys_ne_zero hparams
  obtain ⟨c1, hcreated, hlive, hready⟩ := transNew_eq c hdraw
  have hcopied : transRunNew c draws params = some (c1.setRequest c.nextPtr (some params), c.nextPtr) := by
    simp [transRunNew, hparams, hcreated, hlive, Conn.setRequest]
  obtain ⟨dict, hset, hdict⟩ := transSetParams_eq hlive rfl members
  have hdict : dict = some (HashDict.create.setAll members) := by
    cases dict with
    | none => exact absurd (congrArg HashDict.numKeys hdict.symm) hbuilt
    | some dict => exact congrArg some hdict
  rw [hdict] at hset
  obtain ⟨hok, hok', hconnect, hconn, hrequests⟩ :=
    transSend_alike lib hlive rfl (hready ▸ hnext) hparams hbuilt rfl rfl
  have hrun : transRun lib c draws params =
      ⟨(transSend lib (c1.setRequest c.nextPtr (some params)) c.nextPtr).conn, some c.nextPtr,
        (transSend lib (c1.setRequest c.nextPtr (some params)) c.nextPtr).connect⟩ := by
    rw [transRun, hcopied]
    exact if_pos hok
  have hparts : transRunByParts lib c draws members =
      ⟨(transSend lib (transSetParams c1 c.nextPtr members) c.nextPtr).conn, some c.nextPtr,
        (transSend lib (transSetParams c1 c.nextPtr members) c.nextPtr).connect⟩ := by
    rw [← hset] at hok'
    rw [transRunByParts, hcreated]
    simp only [hok', if_true]
  have hrefused := @transRun_null lib draws params c hnext
  rw [hrun] at hrefused
  rw [hrun, hparts, hset]
  refine ⟨rfl, hconnect, hrefused, fun p hp => ?_, fun p hp => ?_, hdata⟩
  · obtain rfl := Option.some.inj hp
    exact hconn
  · obtain rfl := Option.some.inj hp
    exact hrequests

/-- In every state `LM_trans_run` is the equivalent of the calls for the members exactly for a
dictionary that survives being rebuilt. -/
theorem transRun_alike_iff {s : Sys} (h : (monetra lib).Reachable s)
    (hdraw : unusedDraw s.conn draws = some draw) (hparams : params.numKeys ≠ 0)
    (hmembers : members.Perm params.entries) :
    RunsAlike lib s.conn params members (transRun lib s.conn draws params)
      (transRunByParts lib s.conn draws members) ↔ params.Rebuilds members := by
  rw [← HashDict.sameRequest_iff hmembers hparams]
  have hrep := (running_of_reachable h).rep
  have hnext : s.conn.nextPtr ∉ s.conn.transReady := by
    intro hmem
    obtain ⟨t, ht, -⟩ := hrep.queued .ready _ hmem
    exact absurd (hrep.fresh _ t ht) (Nat.lt_irrefl _)
  exact ⟨fun halike => halike.data, runsAlike_of_sameRequest lib hnext hdraw hparams⟩

/-- A sale whose dictionary compares keys case-sensitively is the same by its members. -/
theorem transRun_alike_iff_sale :
    let params : HashDict := ⟨false, false, false,
      [(ascii "action", some (ascii "sale")), (ascii "amount", some (ascii "1"))],
      fun _ => by decide, by decide⟩
    RunsAlike reference saleSent.conn params params.entries
      (transRun reference saleSent.conn [⟨8, by decide⟩] params)
      (transRunByParts reference saleSent.conn [⟨8, by decide⟩] params.entries) :=
  (@transRun_alike_iff reference _ ⟨8, by decide⟩ _ _ _ saleSent_reachable rfl (by decide)
    (List.Perm.refl _)).mpr (by decide)

end Alike

/-- Two members whose keys differ in the case of the letters. -/
def mixedCase : HashDict where
  casecmp := false
  multiValue := false
  multiGetlast := false
  entries := [(ascii "amount", some (ascii "1")), (ascii "AMOUNT", some (ascii "2"))]
  distinct := fun _ => by decide
  uniform := by decide

/-- Of two keys that differ in case, the calls for the members send one and `LM_trans_run` both. -/
theorem mixedCase_not_alike :
    (transRun reference saleSent.conn [⟨8, by decide⟩] mixedCase).conn.outbuf =
        saleSent.conn.outbuf ++ stx :: ascii "8" ++ fs :: ascii "amount=1\nAMOUNT=2" ++ [etx] ∧
      (transRunByParts reference saleSent.conn [⟨8, by decide⟩] mixedCase.entries).conn.outbuf =
        saleSent.conn.outbuf ++ stx :: ascii "8" ++ fs :: ascii "amount=2" ++ [etx] ∧
      (monetra reference).Reachable saleSent ∧
      ¬RunsAlike reference saleSent.conn mixedCase mixedCase.entries
        (transRun reference saleSent.conn [⟨8, by decide⟩] mixedCase)
        (transRunByParts reference saleSent.conn [⟨8, by decide⟩] mixedCase.entries) :=
  ⟨by decide, by decide, saleSent_reachable,
    fun halike => absurd halike.data (by decide)⟩

end LibMonetra
