import ModalGraph.Proofs.Service.Statuses

/-!
# Bodies under a limit

The body of a request is read up to one byte more than its limit allows, and it is too long if that byte is there. So a body that can
be read to its end is received whole, or it is refused because of its length alone (`readBody_of_lt`), and the service answers with
the status 413 exactly then (`Service.status_tooLarge_iff`).

Limits are words of 64 bits, and the greatest of them has no successor: under it nothing at all is read, and what is received is empty
(`readBody_greatest`), although any body is within this limit (`receive_drops_body`). `Request.receive_whole` says what is received
under any limit.
-/

namespace ModalGraph

/-- The greatest limit. -/
def greatestLimit : Int :=
  2 ^ 63 - 1

/-- What a limit makes of a body: all of it, or a refusal if it is longer. A limit that is not positive is none. -/
def Bytes.within (limit : Int) (body : Bytes) : Except RequestFault Bytes :=
  if 0 < limit ∧ limit < body.length then .error .tooLarge else .ok body

/-! ## What is read -/

theorem readingBound_of_lt {limit : Int} (h0 : 0 < limit) (h : limit < greatestLimit) : (readingBound limit : Int) = limit + 1 := by
  have hpow : ((Nat.pow 2 64 : Nat) : Int) = 2 ^ 64 := rfl
  unfold greatestLimit at h
  rw [readingBound, Int.bmod_def, hpow]
  omega

theorem readingBound_greatest : readingBound greatestLimit = 0 := by
  decide

/-- One byte more than the limit is enough to tell whether a body is longer, and a body that is not is read to its end. -/
theorem readBody_of_lt {limit : Int} {contentType : String} (ht : acceptsContentType contentType = true) (h : limit < greatestLimit)
    (body : Bytes) : readBody limit contentType body = body.within limit := by
  rw [readBody, ht, Bytes.within]
  by_cases h0 : 0 < limit
  · have hbound := readingBound_of_lt h0 h
    have hread : (readUpTo limit body).length = min (readingBound limit) body.length := List.length_take
    by_cases hlong : limit < body.length
    · have htaken : limit < (readUpTo limit body).length := by omega
      simp [h0, hlong, htaken, Int.not_le.mpr h0]
    · have hwhole : readUpTo limit body = body := List.take_of_length_le (by omega)
      simp [hlong, hwhole, Int.not_le.mpr h0]
  · simp [h0, Int.not_lt.mp h0]

theorem readBody_greatest {contentType : String} (ht : acceptsContentType contentType = true) (body : Bytes) :
    readBody greatestLimit contentType body = .ok [] := by
  have hread : readUpTo greatestLimit body = [] := by
    rw [readUpTo, readingBound_greatest, List.take_zero]
  rw [readBody, ht, hread]
  rfl

/-! ## What is received -/

theorem Request.receive_of_unbroken {r : Request} (hr : r.broken = false) (limit : Int) :
    r.receive limit = readBody limit (r.header "Content-Type") r.body := by
  rw [receive, hr]
  rfl

/-- A body that can be read to its end is received whole, or refused if the limit is positive and the body is longer. Only under the
greatest limit nothing of it is received. -/
theorem Request.receive_whole {r : Request} (ht : acceptsContentType (r.header "Content-Type") = true) (hr : r.broken = false)
    {limit : Int} (h : limit ≤ greatestLimit) :
    r.receive limit = if limit = greatestLimit then .ok [] else r.body.within limit := by
  rw [r.receive_of_unbroken hr]
  by_cases hgreatest : limit = greatestLimit
  · rw [if_pos hgreatest, hgreatest]
    exact readBody_greatest ht r.body
  · rw [if_neg hgreatest]
    exact readBody_of_lt ht (by omega) r.body

namespace Sample

/-- A request with a body of fifteen bytes. -/
def request : Request :=
  compileRequest "\x7b\"formula\":\"a\"\x7d"

theorem request_accepted : acceptsContentType (request.header "Content-Type") = true := by
  decide

theorem request_length : request.body.length = 15 := by
  decide

end Sample

/-- The body of the sample is within a limit of fifteen, and without a limit, but not within a limit of fourteen. -/
theorem Request.receive_whole_sample :
    acceptsContentType (Sample.request.header "Content-Type") = true ∧ Sample.request.broken = false ∧ 15 ≤ greatestLimit ∧
      Sample.request.receive 15 = .ok Sample.request.body ∧ Sample.request.receive 14 = .error .tooLarge ∧
      Sample.request.receive (-1) = .ok Sample.request.body := by
  refine ⟨Sample.request_accepted, rfl, by decide, ?_, ?_, ?_⟩
  · rw [receive_whole Sample.request_accepted rfl (by decide), if_neg (by decide), Bytes.within, Sample.request_length,
      if_neg (by decide)]
  · rw [receive_whole Sample.request_accepted rfl (by decide), if_neg (by decide), Bytes.within, Sample.request_length,
      if_pos (by decide)]
  · rw [receive_whole Sample.request_accepted rfl (by decide), if_neg (by decide), Bytes.within, if_neg (by decide)]

/-- Under the greatest limit a body is lost although it is within the limit. -/
theorem receive_drops_body :
    acceptsContentType (Sample.request.header "Content-Type") = true ∧ Sample.request.broken = false ∧ 0 < greatestLimit ∧
      Sample.request.body.length ≤ greatestLimit ∧ Sample.request.receive greatestLimit = .ok [] ∧ Sample.request.body ≠ [] := by
  have hlength : (Sample.request.body.length : Int) ≤ greatestLimit := by
    rw [Sample.request_length]
    decide
  have hreceive : Sample.request.receive greatestLimit = .ok [] :=
    (Sample.request.receive_of_unbroken rfl _).trans (readBody_greatest Sample.request_accepted _)
  exact ⟨Sample.request_accepted, rfl, by decide, hlength, hreceive, by decide⟩

/-! ## What is answered -/

theorem Query.ofBody_status {body : Bytes} {f : RequestFault} (h : Query.ofBody body = .error f) : f.status ≠ 413 := by
  unfold Query.ofBody at h
  split at h
  · obtain rfl := Except.error.inj h
    decide
  · split at h
    · obtain rfl := Except.error.inj h
      decide
    · cases h

namespace Service

theorem statusOf_ne_tooLarge (f : Failure) : statusOf f ≠ 413 := by
  unfold statusOf
  dsimp only
  split
  · decide
  · split
    · decide
    · split <;> decide

/-- A refusal that has nothing to do with the length of the body. -/
def Refusal.Received (e : Refusal) : Prop :=
  refusalStatus e ≠ some 413

theorem refuseAs_received {status : Nat} (h : status ≠ 413) (f : Failure) : Refusal.Received (refuseAs status f) := by
  unfold refuseAs
  split
  · exact nofun
  · exact fun heq => h (Option.some.inj heq)

theorem refuse_received (f : Failure) : Refusal.Received (refuse f) :=
  refuseAs_received (statusOf_ne_tooLarge f) f

theorem query_received {body : Bytes} {f : RequestFault} (h : Query.ofBody body = .error f) : Refusal.Received (.fault f) :=
  fun heq => Query.ofBody_status h (Option.some.inj heq)

variable {s : Service} {patience : Patience} {body : Bytes} {e : Refusal}

/-- A body that has been received is not refused for its length any more. -/
theorem compile_received (h : (s.compile patience body).result = .error e) : Refusal.Received e := by
  unfold compile at h
  split at h
  · rename_i hq
    obtain rfl := Except.error.inj h
    exact query_received hq
  · dsimp only at h
    split at h
    · obtain rfl := Except.error.inj h
      exact refuse_received _
    · unfold modelContent at h
      split at h
      · obtain rfl := Except.error.inj h
        exact refuse_received _
      · cases h

theorem evaluateOn_received {accept : String} {formula : Bytes} {gs : List Graph}
    (h : (s.evaluateOn patience accept formula gs).result = .error e) : Refusal.Received e := by
  obtain ⟨f, rfl, -⟩ := evaluateOn_refused h
  exact refuse_received f

theorem evaluate_received {accept : String} (h : (s.evaluate patience accept body).result = .error e) : Refusal.Received e := by
  unfold evaluate at h
  split at h
  · rename_i hq
    obtain rfl := Except.error.inj h
    exact query_received hq
  · split at h
    · obtain rfl := Except.error.inj h
      exact show some 400 ≠ some 413 by decide
    · dsimp only at h
      split at h
      · obtain rfl := Except.error.inj h
        exact refuseAs_received (by decide) _
      · exact evaluateOn_received h

/-- A request for one of the routes with a body that can be read to its end is answered with the status 413 exactly if the limit of the
service is positive and the body is longer. -/
theorem status_tooLarge_iff {r : Request} (run : Nat) (hroute : (routeOf r.path).isEmpty = false) (hpost : r.method = "POST")
    (ht : acceptsContentType (r.header "Content-Type") = true) (hr : r.broken = false) (h : s.options.maxBody < greatestLimit) :
    (s.handle run r).response.map Response.status = some 413 ↔ 0 < s.options.maxBody ∧ s.options.maxBody < r.body.length := by
  have hpassed : (r.method == "OPTIONS") = false := by rw [hpost]; decide
  have hreceive : r.receive s.options.maxBody = r.body.within s.options.maxBody :=
    (r.receive_of_unbroken hr _).trans (readBody_of_lt ht h r.body)
  rw [handle_status, hpassed, if_neg Bool.false_ne_true, work, hroute, hpost, hreceive, Bytes.within]
  by_cases hlong : 0 < s.options.maxBody ∧ s.options.maxBody < r.body.length
  · rw [if_pos hlong]
    exact iff_of_true rfl hlong
  · rw [if_neg hlong]
    refine iff_of_false ?_ hlong
    have hreceived : ∀ e, (if routeOf r.path == "/compile" then s.compile r.patience r.body
        else s.evaluate r.patience (r.header "Accept") r.body).result = .error e → Refusal.Received e := by
      intro e he
      split at he
      · exact compile_received he
      · exact evaluate_received he
    dsimp only
    split
    · exact show some 200 ≠ some 413 by decide
    · rename_i e he
      exact hreceived e he

end Service

end ModalGraph
