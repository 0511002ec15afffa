import LibMonetra.Parse

/-!
# The framing of the wire

How `LM_conn_parse_trans_buffer` cuts `inbuf` into messages. The framing waits for five bytes before
it looks at any, so that a frame of four bytes is never a message.
-/

namespace LibMonetra

open Foundation

/-- The frame of a message. -/
def frameOf (msg : Bytes) : Bytes := stx :: msg ++ [etx]

/-- What the framing says about the bytes that have arrived. -/
def frameScan (inbuf : Bytes) : Scan UInt8 :=
  if inbuf.length < 5 then .wait
  else if inbuf.head? ≠ some stx then .bad
  else
    match takeThrough etx inbuf with
    | none => .wait
    | some (frame, rest) => if frame.length < 5 then .bad else .frame frame.tail.dropLast rest

/-- A frame is taken exactly when its message has three bytes and no end of frame. -/
theorem frameScan_eq_frame_iff (inbuf msg rest : Bytes) :
    frameScan inbuf = .frame msg rest ↔
      etx ∉ msg ∧ 3 ≤ msg.length ∧ inbuf = frameOf msg ++ rest := by
  constructor
  · intro h
    unfold frameScan at h
    split at h
    · cases h
    · split at h
      · cases h
      · rename_i hhead
        split at h
        · cases h
        · rename_i frame back htake
          split at h
          · cases h
          · rename_i hlong
            simp only [Scan.frame.injEq] at h
            obtain ⟨rfl, rfl⟩ := h
            obtain ⟨body, hbody, rfl, rfl⟩ := (takeThrough_eq_some_iff ..).mp htake
            cases body with
            | nil => simp at hlong
            | cons b body =>
              have hb : b = stx := by simpa using hhead
              subst hb
              simp only [List.mem_cons, not_or] at hbody
              simp only [List.cons_append, List.tail_cons, List.dropLast_concat]
              refine ⟨hbody.2, ?_, by simp [frameOf]⟩
              simpa using hlong
  · rintro ⟨hmsg, hlong, rfl⟩
    have hstart : etx ∉ stx :: msg := by
      simp only [List.mem_cons, not_or]
      exact ⟨by decide, hmsg⟩
    have htake : takeThrough etx (frameOf msg ++ rest) = some (frameOf msg, rest) := by
      have hcut := takeThrough_append_cons etx (stx :: msg) rest hstart
      simpa [frameOf] using hcut
    have hfive : ¬(frameOf msg ++ rest).length < 5 := by
      simp only [frameOf, List.cons_append, List.length_cons, List.length_append]
      omega
    have hframe : ¬(frameOf msg).length < 5 := by
      simp only [frameOf, List.cons_append, List.length_cons, List.length_append, List.length_nil]
      omega
    unfold frameScan
    rw [if_neg hfive, if_neg (by simp [frameOf]), htake]
    simp only [hframe, if_false, Scan.frame.injEq, and_true]
    simp [frameOf]

/-- What the framing rejects, it rejects whatever follows. -/
theorem frameScan_bad_append (inbuf later : Bytes) (h : frameScan inbuf = .bad) :
    frameScan (inbuf ++ later) = .bad := by
  unfold frameScan at h ⊢
  split at h
  · cases h
  · rename_i hfive
    have hfive' : ¬(inbuf ++ later).length < 5 := by
      rw [List.length_append]
      omega
    rw [if_neg hfive']
    have hhead : (inbuf ++ later).head? = inbuf.head? := by
      cases inbuf with
      | nil => simp at hfive
      | cons b rest => rfl
    rw [hhead]
    split at h
    · rename_i hne
      rw [if_pos hne]
    · rename_i hstx
      rw [if_neg hstx]
      split at h
      · cases h
      · rename_i frame rest htake
        rw [takeThrough_append etx inbuf later frame rest htake]
        split at h
        · rename_i hshort
          simp only [hshort, if_true]
        · cases h

/-- The framing of the library as a scanner. -/
def frameScanner : Scanner UInt8 where
  scan := frameScan
  bad_append := frameScan_bad_append
  frame_append inbuf later msg rest h := by
    obtain ⟨hmsg, hlong, rfl⟩ := (frameScan_eq_frame_iff ..).mp h
    exact (frameScan_eq_frame_iff ..).mpr ⟨hmsg, hlong, by rw [List.append_assoc]⟩
  frame_shorter inbuf msg rest h := by
    obtain ⟨-, -, rfl⟩ := (frameScan_eq_frame_iff ..).mp h
    simp only [frameOf, List.cons_append, List.length_cons, List.length_append]
    omega

/-- The first frame of a stream determines its message and what follows. -/
theorem frameOf_append_inj {msg msg' rest rest' : Bytes} (hmsg : etx ∉ msg) (hmsg' : etx ∉ msg')
    (h : frameOf msg ++ rest = frameOf msg' ++ rest') : msg = msg' ∧ rest = rest' := by
  have hcut : ∀ m r : Bytes, etx ∉ m →
      takeThrough etx ((frameOf m ++ r).tail) = some (m ++ [etx], r) := by
    intro m r hm
    have htake := takeThrough_append_cons etx m r hm
    simpa [frameOf] using htake
  have hboth := hcut msg rest hmsg
  rw [h, hcut msg' rest' hmsg', Option.some.injEq, Prod.mk.injEq] at hboth
  exact ⟨(List.append_cancel_right hboth.1).symm, hboth.2.symm⟩

/-- The frames at the front of a stream of frames determine their messages and what follows. -/
theorem frames_of_append {msgs all : List Bytes} {rest : Bytes} (hmsgs : ∀ msg ∈ msgs, etx ∉ msg)
    (hall : ∀ msg ∈ all, etx ∉ msg) (h : msgs.flatMap frameOf ++ rest = all.flatMap frameOf) :
    ∃ later, all = msgs ++ later ∧ rest = later.flatMap frameOf := by
  induction msgs generalizing all with
  | nil => exact ⟨all, rfl, by simpa using h⟩
  | cons msg msgs ih =>
    cases all with
    | nil => simp [frameOf] at h
    | cons first all =>
      simp only [List.flatMap_cons, List.append_assoc] at h
      obtain ⟨rfl, htail⟩ := frameOf_append_inj (hmsgs msg List.mem_cons_self)
        (hall first List.mem_cons_self) h
      obtain ⟨later, rfl, hrest⟩ := ih (fun m hm => hmsgs m (List.mem_cons_of_mem _ hm))
        (fun m hm => hall m (List.mem_cons_of_mem _ hm)) htail
      exact ⟨later, rfl, hrest⟩

section Parse

variable (lib : Mstdlib) (fuel : ℕ) {c : Conn} {msg rest : Bytes}

/-- The parser waits for more bytes when the framing does. -/
theorem connParseTransBufferLoop_wait (h : frameScan c.inbuf = .wait) :
    connParseTransBufferLoop lib fuel c = (c, .wait, none) := by
  cases fuel with
  | zero => rfl
  | succ fuel =>
    unfold frameScan at h
    rw [connParseTransBufferLoop]
    split
    · rfl
    · rename_i hfive
      rw [if_neg hfive] at h
      split
      · rename_i hhead
        rw [if_pos hhead] at h
        cases h
      · rename_i hhead
        rw [if_neg hhead] at h
        split
        · rfl
        · rename_i frame back htake
          rw [htake] at h
          simp only at h
          split at h <;> cases h

/-- The parser gives up when the framing does. -/
theorem connParseTransBufferLoop_bad (h : frameScan c.inbuf = .bad) :
    ∃ inbuf, connParseTransBufferLoop lib (fuel + 1) c = ({ c with inbuf := inbuf }, .error, none) := by
  unfold frameScan at h
  rw [connParseTransBufferLoop]
  split at h
  · cases h
  · rename_i hfive
    rw [if_neg hfive]
    split at h
    · rename_i hhead
      exact ⟨c.inbuf, by rw [if_pos hhead]⟩
    · rename_i hhead
      rw [if_neg hhead]
      cases htake : takeThrough etx c.inbuf with
      | none =>
        rw [htake] at h
        cases h
      | some cut =>
        obtain ⟨frame, back⟩ := cut
        rw [htake] at h
        dsimp only at h ⊢
        split at h
        · rename_i hshort
          exact ⟨back, if_pos hshort⟩
        · cases h

/-- The parser looks at a message that the framing has cut out, and goes on behind an orphan. -/
theorem connParseTransBufferLoop_frame (h : frameScan c.inbuf = .frame msg rest) :
    connParseTransBufferLoop lib (fuel + 1) c =
      let parsed := connParseMsg lib { c with inbuf := rest, trace := c.trace ++ [.consumed msg] } msg
      if parsed.2.1 = .wait then connParseTransBufferLoop lib fuel parsed.1 else parsed := by
  unfold frameScan at h
  rw [connParseTransBufferLoop]
  split at h
  · cases h
  · rename_i hfive
    rw [if_neg hfive]
    split at h
    · cases h
    · rename_i hhead
      rw [if_neg hhead]
      cases htake : takeThrough etx c.inbuf with
      | none =>
        rw [htake] at h
        cases h
      | some cut =>
        obtain ⟨frame, back⟩ := cut
        rw [htake] at h
        dsimp only at h ⊢
        split at h
        · cases h
        · rename_i hlong
          obtain ⟨rfl, rfl⟩ := Scan.frame.inj h
          exact if_neg hlong

end Parse

end LibMonetra
