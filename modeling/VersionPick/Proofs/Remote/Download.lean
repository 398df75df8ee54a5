/-
The download of the catalogue as it is seen from outside: requests, and waits
between them. A client that follows a script answers the requests one after
the other; what it was asked for stands in a record. An attempt that may be
worth repeating adds a request and a wait to the record (`attempt_of_retryable`),
so the first answer that settles the matter is met after as many pairs of these
as there are answers before it (`attempt_after`).
-/
import VersionPick.Remote.Download

namespace VersionPick

/-- What a client does. -/
inductive ClientAction
  | request (method : Method) (url : String)
  /-- A wait for some milliseconds. -/
  | wait (delay : Nat)
  deriving DecidableEq, Repr

def ClientAction.isRequest : ClientAction → Bool
  | request .. => true
  | wait _ => false

/-- The answers to requests, by how many were made before. -/
abbrev Answers := Nat → Except TransportFault Response

/-- A client that keeps a record of its actions, and is answered by a script. -/
def Client.scripted (answers : Answers) : Client (StateM (List ClientAction)) where
  request method url := fun record =>
    (answers (record.countP ClientAction.isRequest), record ++ [.request method url])
  wait delay := fun record => ((), record ++ [.wait delay])

/-- An answer after which no other is asked for: a document, or the word that
there is nobody to ask. -/
inductive Conclusive : Except TransportFault Response → Prop
  | document {response : Response} (hlow : 200 ≤ response.status) (hhigh : response.status < 300) :
    Conclusive (.ok response)
  | badAddress {fault : TransportFault} (h : fault.badAddress = true) : Conclusive (.error fault)

/-- What a conclusive answer makes of a download. -/
inductive Concludes : Except TransportFault Response → Except FetchError Catalogue → Prop
  | catalogue {response : Response} {c : Catalogue} (h : Catalogue.read? response.body.toList = some c) :
    Concludes (.ok response) (.ok c)
  | malformed {response : Response} (detail : String) (h : Catalogue.read? response.body.toList = none) :
    Concludes (.ok response) (.error (.document detail))
  | badAddress {fault : TransportFault} (h : fault.badAddress = true) :
    Concludes (.error fault) (.error (.transport fault))

/-- The failure that an answer is when it is not conclusive. -/
def failureOf (url : String) : Except TransportFault Response → FetchError
  | .ok response => .status response.status url
  | .error fault => .transport fault

/-- Some requests, each with the wait before the next; retries are counted
from one. -/
def repeated (url : String) (delay : UInt64) (times : Nat) : List ClientAction :=
  (List.range times).flatMap fun i => [.request .get url, .wait (backoff delay (UInt32.ofNat (i + 1)))]

theorem repeated_succ (url : String) (delay : UInt64) (times : Nat) :
    repeated url delay (times + 1) =
      repeated url delay times ++ [.request .get url, .wait (backoff delay (UInt32.ofNat (times + 1)))] := by
  simp [repeated, List.range_succ]

theorem countP_repeated (url : String) (delay : UInt64) :
    ∀ times, (repeated url delay times).countP ClientAction.isRequest = times
  | 0 => rfl
  | times + 1 => by
    rw [repeated_succ, List.countP_append, countP_repeated url delay times]
    rfl

/-! ## One attempt -/

theorem conclusive_ok_iff {response : Response} : Conclusive (.ok response) ↔ response.isSuccess = true := by
  rw [Response.isSuccess, Bool.and_eq_true, decide_eq_true_iff, decide_eq_true_iff]
  exact ⟨fun | .document hlow hhigh => ⟨hlow, hhigh⟩, fun h => .document h.1 h.2⟩

theorem isRetryable_failureOf {url : String} {answer : Except TransportFault Response} (h : ¬ Conclusive answer) :
    (failureOf url answer).isRetryable = true := by
  cases answer with
  | ok response => rfl
  | error fault => simpa [failureOf, FetchError.isRetryable] using mt Conclusive.badAddress h

/-- If one of the answers up to some number is conclusive, one is the first. -/
theorem conclusive_cases (answers : Answers) (last : Nat) : (∀ i ≤ last, ¬ Conclusive (answers i)) ∨
    ∃ k ≤ last, Conclusive (answers k) ∧ ∀ i < k, ¬ Conclusive (answers i) := by
  induction last with
  | zero =>
    by_cases h : Conclusive (answers 0)
    · exact .inr ⟨0, Nat.le_refl 0, h, fun i hi => absurd hi (Nat.not_lt_zero i)⟩
    · exact .inl fun i hi => Nat.le_zero.mp hi ▸ h
  | succ last ih =>
    rcases ih with hbefore | ⟨k, hk, hfirst⟩
    · by_cases h : Conclusive (answers (last + 1))
      · exact .inr ⟨last + 1, Nat.le_refl _, h, fun i hi => hbefore i (Nat.le_of_lt_succ hi)⟩
      · exact .inl fun i hi => (Nat.le_succ_iff.mp hi).elim (hbefore i) fun he => he ▸ h
    · exact .inr ⟨k, Nat.le_succ_of_le hk, hfirst⟩

namespace Client

section
variable {σ : Type} {client : Client (StateM σ)} {delay : UInt64} {once : StateM σ (Except FetchError α)}
  {left : Nat} {retries : UInt32} {s s' : σ}

theorem attempt_of_ok {a : α} (h : once.run s = (.ok a, s')) :
    (client.attempt delay once left retries).run s = (.ok a, s') := by
  rw [attempt, StateT.run_bind, h]
  rfl

theorem attempt_of_final {e : FetchError} (h : once.run s = (.error e, s')) (he : e.isRetryable = false) :
    (client.attempt delay once left retries).run s = (.error e, s') := by
  rw [attempt, StateT.run_bind, h]
  change StateT.run (ite _ _ _) s' = _
  rw [he]
  rfl

theorem attempt_of_spent {e : FetchError} (h : once.run s = (.error e, s')) (he : e.isRetryable = true) :
    (client.attempt delay once 0 retries).run s = (.error (.unavailable (retries + 1) e), s') := by
  rw [attempt, StateT.run_bind, h]
  change StateT.run (ite _ _ _) s' = _
  rw [he]
  rfl

theorem attempt_of_retryable {e : FetchError} (h : once.run s = (.error e, s')) (he : e.isRetryable = true) :
    (client.attempt delay once (left + 1) retries).run s =
      (client.attempt delay once left (retries + 1)).run
        ((client.wait (backoff delay (retries + 1))).run s').2 := by
  rw [attempt, StateT.run_bind, h]
  change StateT.run (ite _ _ _) s' = _
  rw [he]
  rfl

end

section
variable {answers : Answers} {record : List ClientAction} {n : Nat} (url : String) (delay : UInt64)

theorem request_scripted (hn : record.countP ClientAction.isRequest = n) :
    ((scripted answers).request .get url).run record = (answers n, record ++ [.request .get url]) := by
  rw [← hn]
  rfl

theorem download_document {response : Response} (hn : record.countP ClientAction.isRequest = n)
    (hanswer : answers n = .ok response) (hsuccess : response.isSuccess = true) :
    ((scripted answers).download url).run record =
      (.ok response.body.toList, record ++ [.request .get url]) := by
  rw [download, StateT.run_bind, request_scripted url hn, hanswer]
  change StateT.run (ite _ _ _) _ = _
  rw [hsuccess]
  rfl

theorem download_failure (hn : record.countP ClientAction.isRequest = n)
    (hanswer : ∀ response, answers n = .ok response → response.isSuccess = false) :
    ((scripted answers).download url).run record =
      (.error (failureOf url (answers n)), record ++ [.request .get url]) := by
  rw [download, StateT.run_bind, request_scripted url hn]
  cases h : answers n with
  | error fault => rfl
  | ok response =>
    change StateT.run (ite _ _ _) _ = _
    rw [hanswer response h]
    rfl

theorem download_of_not_conclusive (hn : record.countP ClientAction.isRequest = n) (h : ¬ Conclusive (answers n)) :
    ((scripted answers).download url).run record =
      (.error (failureOf url (answers n)), record ++ [.request .get url]) :=
  download_failure url hn fun response hanswer => by
    rw [hanswer, conclusive_ok_iff] at h
    exact Bool.eq_false_iff.mpr h

/-! ## Many attempts -/

/-- Answers that are not conclusive are passed over, each with a request and a
wait. -/
theorem attempt_after {times : Nat} (h : ∀ i < times, ¬ Conclusive (answers i)) (left : Nat) :
    ((scripted answers).attempt delay ((scripted answers).download url) (left + times) 0).run [] =
      ((scripted answers).attempt delay ((scripted answers).download url) left (UInt32.ofNat times)).run
        (repeated url delay times) := by
  induction times generalizing left with
  | zero => rfl
  | succ times ih =>
    have hlast : ¬ Conclusive (answers times) := h times (Nat.lt_succ_self times)
    have hdownload := download_of_not_conclusive url (countP_repeated url delay times) hlast
    have hcount : UInt32.ofNat times + 1 = UInt32.ofNat (times + 1) := (UInt32.ofNat_add times 1).symm
    rw [← Nat.add_assoc, Nat.add_right_comm, ih (fun i hi => h i (Nat.lt_succ_of_lt hi)),
      attempt_of_retryable hdownload (isRetryable_failureOf hlast), hcount, repeated_succ]
    simp [scripted, StateT.run]

theorem concludes_document (response : Response) :
    Concludes (.ok response) (Catalogue.ofDocument response.body.toList) := by
  unfold Catalogue.ofDocument
  split
  next h => exact .catalogue h
  next h => exact .malformed _ h

/-- The first conclusive answer ends the attempts, if it is met before they are
spent. -/
theorem attempt_conclusive {k : Nat} (h : Conclusive (answers k)) (hbefore : ∀ i < k, ¬ Conclusive (answers i))
    (left : Nat) : ∃ document,
    ((scripted answers).attempt delay ((scripted answers).download url) (left + k) 0).run [] =
      (document, repeated url delay k ++ [.request .get url]) ∧
    Concludes (answers k) (document.bind Catalogue.ofDocument) := by
  have hcount := countP_repeated url delay k
  rw [attempt_after url delay hbefore]
  cases hanswer : answers k with
  | ok response =>
    have hsuccess : response.isSuccess = true := conclusive_ok_iff.mp (hanswer ▸ h)
    exact ⟨_, attempt_of_ok (download_document url hcount hanswer hsuccess), concludes_document response⟩
  | error fault =>
    rw [hanswer] at h
    cases h with
    | badAddress hfault =>
      have hdownload := download_failure url hcount fun response hresponse => nomatch hanswer.symm.trans hresponse
      rw [hanswer] at hdownload
      have hfinal : (failureOf url (.error fault)).isRetryable = false := by
        simp [failureOf, FetchError.isRetryable, hfault]
      exact ⟨_, attempt_of_final hdownload hfinal, .badAddress hfault⟩

/-- Without a conclusive answer the attempts end with the failure of the last. -/
theorem attempt_spent {retries : Nat} (h : ∀ i ≤ retries, ¬ Conclusive (answers i)) :
    ((scripted answers).attempt delay ((scripted answers).download url) retries 0).run [] =
      (.error (.unavailable (UInt32.ofNat retries + 1) (failureOf url (answers retries))),
        repeated url delay retries ++ [.request .get url]) := by
  have hlast : ¬ Conclusive (answers retries) := h retries (Nat.le_refl retries)
  have hafter := attempt_after url delay (fun i hi => h i (Nat.le_of_lt hi)) 0
  rw [Nat.zero_add] at hafter
  rw [hafter, attempt_of_spent (download_of_not_conclusive url (countP_repeated url delay retries) hlast)
    (isRetryable_failureOf hlast)]

end

theorem run_fetchCatalogue {σ : Type} {client : Client (StateM σ)} {settings : Settings} {s s' : σ}
    {document : Except FetchError (List Char)}
    (h : (client.attempt settings.retryDelay (client.download settings.versionsUrl)
      settings.maxRetries.toNat 0).run s = (document, s')) :
    (client.fetchCatalogue settings).run s = (document.bind Catalogue.ofDocument, s') := by
  rw [fetchCatalogue, StateT.run_bind, h]
  rfl

/-- A download that gives up has made all retries, and tells of one attempt
more. -/
theorem run_fetchCatalogue_spent (settings : Settings) {answers : Answers}
    (h : ∀ i ≤ settings.maxRetries.toNat, ¬ Conclusive (answers i)) :
    ((scripted answers).fetchCatalogue settings).run [] =
      (.error (.unavailable (settings.maxRetries + 1)
          (failureOf settings.versionsUrl (answers settings.maxRetries.toNat))),
        repeated settings.versionsUrl settings.retryDelay settings.maxRetries.toNat ++
          [.request .get settings.versionsUrl]) := by
  have hspent := attempt_spent settings.versionsUrl settings.retryDelay h
  rw [UInt32.ofNat_toNat] at hspent
  exact run_fetchCatalogue hspent

/-- **The download of the catalogue** ends with the first conclusive answer, if
the settings let it ask that often, and makes of it what is to be made of it;
otherwise it ends when all retries are spent, with the failure of the last. It
asks no further, and before each retry it waits once. -/
theorem fetchCatalogue_scripted (settings : Settings) (answers : Answers) :
    let outcome := ((scripted answers).fetchCatalogue settings).run []
    let actions := fun retries =>
      repeated settings.versionsUrl settings.retryDelay retries ++ [.request .get settings.versionsUrl]
    (∀ k ≤ settings.maxRetries.toNat, Conclusive (answers k) → (∀ i < k, ¬ Conclusive (answers i)) →
      outcome.2 = actions k ∧ Concludes (answers k) outcome.1) ∧
    ((∀ i ≤ settings.maxRetries.toNat, ¬ Conclusive (answers i)) →
      outcome.2 = actions settings.maxRetries.toNat ∧
      ∃ attempts, outcome.1 = .error (.unavailable attempts
        (failureOf settings.versionsUrl (answers settings.maxRetries.toNat)))) := by
  intro outcome actions
  constructor
  · intro k hk h hbefore
    obtain ⟨document, hrun, hconcludes⟩ := attempt_conclusive settings.versionsUrl settings.retryDelay h hbefore
      (settings.maxRetries.toNat - k)
    rw [Nat.sub_add_cancel hk] at hrun
    have houtcome : outcome = (document.bind Catalogue.ofDocument, actions k) := run_fetchCatalogue hrun
    rw [houtcome]
    exact ⟨rfl, hconcludes⟩
  · intro h
    have houtcome : outcome = (.error (.unavailable _ _), actions settings.maxRetries.toNat) :=
      run_fetchCatalogue (attempt_spent settings.versionsUrl settings.retryDelay h)
    rw [houtcome]
    exact ⟨rfl, _, rfl⟩

/-- Two failures, and then a document: one that is no catalogue, and one that
is. -/
theorem fetchCatalogue_third_answer :
    let settings : Settings := {}
    let answers (document : String) : Answers
      | 0 => .ok ⟨503, "", none⟩
      | 1 => .error ⟨false, "connection closed", []⟩
      | _ => .ok ⟨200, document, none⟩
    let outcome := fun document => ((scripted (answers document)).fetchCatalogue settings).run []
    let listed := "\x7b\"1.10.0\":\x7b\"files\":[],\"stable\":true\x7d\x7d"
    (∀ document, (outcome document).2 = [.request .get settings.versionsUrl, .wait 500,
      .request .get settings.versionsUrl, .wait 1000, .request .get settings.versionsUrl]) ∧
    (∃ detail, (outcome "[]").1 = .error (.document detail)) ∧
    ∃ c, (outcome listed).1 = .ok c ∧ c.entries = [("1.10.0", ⟨[], true⟩)] := by
  intro settings answers outcome listed
  have hbefore : ∀ document, ∀ i < 2, ¬ Conclusive (answers document i) := by
    intro document i hi
    match i with
    | 0 => simp [answers, conclusive_ok_iff, Response.isSuccess]
    | 1 =>
      intro h
      cases h with
      | badAddress h => cases h
  have hthird := fun document => (fetchCatalogue_scripted settings (answers document)).1 2 (by decide)
    (.document (show 200 ≤ 200 by decide) (show 200 < 300 by decide)) (hbefore document)
  refine ⟨fun document => (hthird document).1.trans (by decide), ?_, ?_⟩
  · have hmalformed : Catalogue.read? "[]".toList = none := by decide
    have hconcludes := (hthird "[]").2
    generalize (outcome "[]").1 = result at hconcludes
    cases hconcludes with
    | catalogue h => exact absurd (h.symm.trans hmalformed) nofun
    | malformed detail _ => exact ⟨detail, rfl⟩
  · have hread : (Catalogue.read? listed.toList).map (·.entries) = some [("1.10.0", ⟨[], true⟩)] := by
      decide +kernel
    have hconcludes := (hthird listed).2
    generalize (outcome listed).1 = result at hconcludes
    cases hconcludes with
    | catalogue h =>
      rw [h] at hread
      exact ⟨_, rfl, Option.some.inj hread⟩
    | malformed _ h =>
      rw [h] at hread
      cases hread

end Client

end VersionPick
