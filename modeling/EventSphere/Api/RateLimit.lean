import EventSphere.Base.Expiring
import EventSphere.Base.Runs
import Mathlib

/-!
# The rate limiter

`RedisRateLimitMiddleware` (`core/rate_limit.py`): a counter for every client and wall-clock minute,
which its first request makes and gives sixty seconds to live. The minute's other requests find it,
since its time starts inside the minute (`Counted.dispatch`); so the counter of a minute is the
number of its requests, and exactly the first ones pass.

`Limiter.exact` says which request is forwarded. The call that gives the counter its lifetime stands
before the comparison with the limit, so a minute's first request is not forwarded when that call
raises, whatever the limit (`Limiter.first_request_lost`).
-/

namespace EventSphere.Api.RateLimit

/-! ## Requests and responses -/

/-- A request, as far as the middleware reads it: the path of its URL, and the host of its client,
if the server knows one. -/
structure Request where
  path : String
  client : Option String
  deriving DecidableEq, Repr

/-- The raw headers of a response. Names are compared without their case. -/
abbrev Headers := List (String × String)

namespace Headers

/-- `headers[name]`. -/
def get (headers : Headers) (name : String) : Option String :=
  (headers.find? fun h => h.1.toLower = name.toLower).map (·.2)

/-- `headers[name] = value`: the first header of the name is changed and others are deleted; if
there is none, one is appended. -/
def set : Headers → String → String → Headers
  | [], name, value => [(name, value)]
  | h :: headers, name, value =>
    if h.1.toLower = name.toLower then
      (name, value) :: List.filter (fun h => h.1.toLower ≠ name.toLower) headers
    else h :: set headers name value

@[simp] theorem get_set (headers : Headers) (name value : String) :
    (headers.set name value).get name = some value := by
  induction headers with
  | nil => simp [set, get]
  | cons h headers ih =>
    by_cases hn : h.1.toLower = name.toLower
    · simp [set, hn, get]
    · simpa [set, hn, get] using ih

end Headers

structure Response where
  statusCode : ℕ
  headers : Headers
  content : String
  deriving DecidableEq, Repr

/-! ## The middleware -/

/-- Reference: `_EXEMPT_PATHS` (`rate_limit.py:14`). -/
def exemptPaths (apiPrefix : String) : List String :=
  [apiPrefix ++ "/health", apiPrefix ++ "/health/ready", "/docs", "/openapi.json", "/redoc"]

/-- Redis, as far as the limiter uses it. -/
abbrev Counters := Store String ℕ (WithTop ℚ)

/-- What the environment answers a dispatch: whether an EXPIRE takes effect, whether its call
raises, and the response of the application, if that does not raise. -/
structure DispatchAnswers where
  executed : Bool
  raises : Bool
  callNext : Option Response
  deriving DecidableEq, Repr

/-- What a dispatch does: whether it hands the request to the application, and the response it
returns, if it does not raise. -/
structure DispatchOutcome where
  forwarded : Bool
  response : Option Response
  deriving DecidableEq, Repr

/-- `request.client.host if request.client else "unknown"`. -/
def Request.identifier (request : Request) : String := request.client.getD "unknown"

/-- `int(time.time() // 60)`. -/
def windowOf (time : ℚ) : ℤ := ⌊time / 60⌋

/-- The key of a counter. -/
def counterKey (identifier : String) (window : ℤ) : String :=
  "ratelimit:" ++ identifier ++ ":" ++ toString window

/-- The response of a request above the limit. -/
def tooManyRequests : Response where
  statusCode := 429
  headers := [("Retry-After", "60")]
  content := "\x7b\"detail\":\"Rate limit exceeded. Try again shortly.\"\x7d"

/-- The headers of the limiter on a response of the application. -/
def Response.withLimit (limit : ℤ) (current : ℕ) (response : Response) : Response :=
  { response with
    headers := (response.headers.set "X-RateLimit-Limit" (toString limit)).set
      "X-RateLimit-Remaining" (toString (max 0 (limit - current))) }

/-- The rest of a dispatch after the counter, which reads `current`. -/
def respond (limit : ℤ) (current : ℕ) (answers : DispatchAnswers) : DispatchOutcome :=
  if limit < current then ⟨false, some tooManyRequests⟩
  else ⟨true, answers.callNext.map fun response => response.withLimit limit current⟩

/-- Reference: `RedisRateLimitMiddleware.dispatch` (`rate_limit.py:41`), with the clock at
`time`. -/
def dispatch (apiPrefix : String) (limit : ℤ) (redis : Counters) (time : ℚ) (request : Request)
    (answers : DispatchAnswers) : Counters × DispatchOutcome :=
  if request.path ∈ exemptPaths apiPrefix then (redis, ⟨true, answers.callNext⟩)
  else
    let key := counterKey request.identifier (windowOf time)
    let (current, redis) := Store.incr redis (time : WithTop ℚ) key
    let redis :=
      if current = 1 ∧ answers.executed then Store.expire redis (time : WithTop ℚ) key ↑(time + 60)
      else redis
    -- the middleware catches nothing: what EXPIRE raises ends the dispatch
    if current = 1 ∧ answers.raises then (redis, ⟨false, none⟩)
    else (redis, respond limit current answers)

/-! ## Keys of counters -/

private theorem colon_notMem_repr (w : ℤ) : ':' ∉ w.repr.toList := by
  have hnat (n : ℕ) : ':' ∉ n.repr.toList := by
    intro h
    rw [Nat.toList_repr] at h
    exact absurd (Nat.isDigit_of_mem_toDigits (by omega) (by omega) h) (by decide)
  rw [Int.repr_eq_if]
  split
  · exact hnat _
  · rw [String.toList_append, List.mem_append]
    rintro (h | h)
    · simp at h
    · exact hnat _ h

/-- A text without a separator can be read off the end of a text, after the separator. -/
private theorem takeWhile_reverse_append {α : Type} [DecidableEq α] {c : α} {l : List α} (h : c ∉ l)
    (k : List α) : (k ++ c :: l).reverse.takeWhile (· ≠ c) = l.reverse := by
  have hl : ∀ x ∈ l.reverse, (decide (x ≠ c)) = true := by
    intro x hx
    have hne : x ≠ c := fun he => h (he ▸ List.mem_reverse.1 hx)
    exact decide_eq_true hne
  rw [List.reverse_append, List.reverse_cons, List.append_assoc, List.takeWhile_append_of_pos hl]
  simp

/-- Counters of different clients or minutes have different keys, even when a host contains colons:
the minute is what follows the last one. -/
theorem counterKey_injective {i j : String} {v w : ℤ} (h : counterKey i v = counterKey j w) :
    i = j ∧ v = w := by
  have hlist := congrArg String.toList h
  simp only [counterKey, Int.toString_eq_repr, String.toList_append] at hlist
  have hcolon : ":".toList = [':'] := rfl
  rw [hcolon, List.append_assoc, List.append_assoc, List.append_assoc, List.append_assoc] at hlist
  have hi := List.append_cancel_left hlist
  simp only [List.singleton_append] at hi
  have hw : v.repr.toList.reverse = w.repr.toList.reverse := by
    rw [← takeWhile_reverse_append (colon_notMem_repr v) i.toList, hi,
      takeWhile_reverse_append (colon_notMem_repr w)]
  have hvw : v = w := Int.repr_injective (String.toList_injective (List.reverse_injective hw))
  subst hvw
  exact ⟨String.toList_injective (List.append_cancel_right hi), rfl⟩

/-! ## One dispatch -/

variable {apiPrefix : String} {limit : ℤ}

/-- What a minute's counter holds after `n` requests: nothing before the first one, and then their
number, until the minute is over at least. -/
def Holds (redis : Counters) (identifier : String) (window : ℤ) : ℕ → Prop
  | 0 => redis (counterKey identifier window) = none
  | n + 1 => ∃ e, redis (counterKey identifier window) = some e ∧ e.value = n + 1 ∧
      (((window + 1) * 60 : ℚ) : WithTop ℚ) ≤ e.expiresAt

theorem Holds.congr {redis redis' : Counters} {identifier : String} {window : ℤ} {n : ℕ}
    (h : Holds redis identifier window n)
    (hk : redis' (counterKey identifier window) = redis (counterKey identifier window)) :
    Holds redis' identifier window n := by
  cases n with
  | zero => exact hk.trans h
  | succ n =>
    obtain ⟨e, he, h⟩ := h
    exact ⟨e, hk.trans he, h⟩

/-- A moment is before the end of its minute. -/
theorem lt_windowOf (time : ℚ) : time < (windowOf time + 1) * 60 := by
  have := Int.lt_floor_add_one (time / 60)
  rw [div_lt_iff₀ (by norm_num)] at this
  exact this

/-- A minute that is counted from inside it is over before the counter is. -/
theorem windowOf_end_le (time : ℚ) : (windowOf time + 1) * 60 ≤ time + 60 := by
  have := Int.floor_le (time / 60)
  rw [le_div_iff₀ (by norm_num)] at this
  simp only [windowOf]
  linarith

/-- **One dispatch** of a request that is not exempt writes its number to its minute's counter,
which lives until the end of the minute, and is decided by it. -/
theorem dispatch_counted {redis : Counters} {time : ℚ} {request : Request} {n : ℕ}
    (hpath : request.path ∉ exemptPaths apiPrefix)
    (hn : Holds redis request.identifier (windowOf time) n) (answers : DispatchAnswers) :
    ∃ e : Entry ℕ (WithTop ℚ), e.value = n + 1 ∧
      (((windowOf time + 1) * 60 : ℚ) : WithTop ℚ) ≤ e.expiresAt ∧
      dispatch apiPrefix limit redis time request answers =
        (Store.set redis (counterKey request.identifier (windowOf time)) e,
          if n = 0 ∧ answers.raises then ⟨false, none⟩ else respond limit (n + 1) answers) := by
  cases n with
  | zero =>
    have hincr := Store.incr_of_none hn (time : WithTop ℚ)
    have hnew : Store.set redis (counterKey request.identifier (windowOf time)) ⟨1, ⊤⟩
        (counterKey request.identifier (windowOf time)) = some ⟨1, ⊤⟩ := by
      rw [Store.set_apply, if_pos rfl]
    have hexpire := Store.expire_of_entry hnew (WithTop.coe_lt_top time) ↑(time + 60)
    rw [Store.set_set] at hexpire
    cases hx : answers.executed with
    | true =>
      refine ⟨⟨1, ↑(time + 60)⟩, rfl, WithTop.coe_le_coe.2 (windowOf_end_le time), ?_⟩
      simp only [dispatch, if_neg hpath, hincr, hx, hexpire]
      split <;> simp_all
    | false =>
      refine ⟨⟨1, ⊤⟩, rfl, le_top, ?_⟩
      simp only [dispatch, if_neg hpath, hincr, hx]
      split <;> simp_all
  | succ n =>
    obtain ⟨e, he, hv, hend⟩ := hn
    have hlive := (WithTop.coe_lt_coe.2 (lt_windowOf time)).trans_le hend
    refine ⟨{ e with value := e.value + 1 }, by rw [hv], hend, ?_⟩
    simp only [dispatch, if_neg hpath, Store.incr_of_entry he hlive, hv]
    simp

/-! ## Runs -/

/-- A request with the moment it is dispatched and what the environment answers it. -/
structure Arrival where
  time : ℚ
  request : Request
  answers : DispatchAnswers
  deriving DecidableEq, Repr

structure Served where
  arrival : Arrival
  outcome : DispatchOutcome
  deriving DecidableEq, Repr

/-- Redis, the clock, and the requests so far with what became of them. -/
structure Limiter where
  redis : Counters
  now : ℚ
  served : List Served

/-- A limiter before its first request. -/
def Limiter.start (now : ℚ) : Limiter := ⟨Store.empty, now, []⟩

/-- The limiter serves a request. The clock does not go back. -/
def Limiter.step (apiPrefix : String) (limit : ℤ) (s : Limiter) (a : Arrival) : Option Limiter :=
  if s.now ≤ a.time then
    let (redis, outcome) := dispatch apiPrefix limit s.redis a.time a.request a.answers
    some ⟨redis, a.time, s.served ++ [⟨a, outcome⟩]⟩
  else none

/-- The request is one that the counter of the client and the minute counts. -/
def Served.counts (apiPrefix identifier : String) (window : ℤ) (r : Served) : Bool :=
  r.arrival.request.path ∉ exemptPaths apiPrefix ∧ r.arrival.request.identifier = identifier ∧
    windowOf r.arrival.time = window

/-- The number of a client's requests in a minute. -/
def requests (apiPrefix identifier : String) (window : ℤ) (served : List Served) : ℕ :=
  served.countP (Served.counts apiPrefix identifier window)

/-- The number of a client's requests in a minute that the application got. -/
def forwarded (apiPrefix identifier : String) (window : ℤ) (served : List Served) : ℕ :=
  served.countP fun r => r.counts apiPrefix identifier window && r.outcome.forwarded

/-- The number a request has in its minute's counter, after `earlier`. -/
def Served.number (apiPrefix : String) (earlier : List Served) (r : Served) : ℕ :=
  requests apiPrefix r.arrival.request.identifier (windowOf r.arrival.time) earlier + 1

/-- What becomes of a request that is not exempt, after `earlier`. -/
structure Served.Limited (apiPrefix : String) (limit : ℤ) (earlier : List Served) (r : Served) :
    Prop where
  forwarded_iff : r.outcome.forwarded = true ↔ (r.number apiPrefix earlier : ℤ) ≤ limit ∧
    ¬(r.number apiPrefix earlier = 1 ∧ r.arrival.answers.raises = true)
  remaining : ∀ response, r.outcome.forwarded = true → r.outcome.response = some response →
    response.headers.get "X-RateLimit-Remaining" =
      some (toString (limit - r.number apiPrefix earlier))

/-- The counters are the numbers of requests, and every request so far was decided by its number. -/
structure Limiter.Exact (apiPrefix : String) (limit : ℤ) (s : Limiter) : Prop where
  counters : ∀ identifier window,
    Holds s.redis identifier window (requests apiPrefix identifier window s.served)
  served : ∀ (i : ℕ) (r : Served), s.served[i]? = some r →
    r.arrival.request.path ∉ exemptPaths apiPrefix → r.Limited apiPrefix limit (s.served.take i)

/-- A request that the limiter decides by its number. -/
theorem limited_respond {earlier : List Served} {a : Arrival} {n : ℕ}
    (hn : requests apiPrefix a.request.identifier (windowOf a.time) earlier = n) :
    Served.Limited apiPrefix limit earlier
      ⟨a, if n = 0 ∧ a.answers.raises then ⟨false, none⟩
        else respond limit (n + 1) a.answers⟩ := by
  have hnumber (o : DispatchOutcome) : Served.number apiPrefix earlier ⟨a, o⟩ = n + 1 := by
    rw [← hn]
    rfl
  by_cases hr : n = 0 ∧ a.answers.raises = true
  · rw [if_pos hr]
    refine ⟨?_, by intro _ h; cases h⟩
    rw [hnumber]
    simp [hr.1, hr.2]
  · rw [if_neg hr]
    have hne : ¬(n + 1 = 1 ∧ a.answers.raises = true) := fun h => hr ⟨by omega, h.2⟩
    by_cases hl : limit < ((n + 1 : ℕ) : ℤ)
    · simp only [respond, if_pos hl]
      refine ⟨?_, by intro _ h; cases h⟩
      rw [hnumber]
      simp only [Bool.false_eq_true, false_iff]
      rintro ⟨h, -⟩
      omega
    · simp only [respond, if_neg hl]
      refine ⟨?_, ?_⟩
      · rw [hnumber]
        exact iff_of_true rfl ⟨by omega, hne⟩
      · intro response _ h
        obtain ⟨response', -, rfl⟩ := Option.map_eq_some_iff.1 h
        rw [hnumber, Response.withLimit, Headers.get_set, max_eq_right (by omega)]

theorem Limiter.step_eq_some {s s' : Limiter} {a : Arrival} :
    Limiter.step apiPrefix limit s a = some s' ↔ s.now ≤ a.time ∧
      s' = ⟨(dispatch apiPrefix limit s.redis a.time a.request a.answers).1, a.time,
        s.served ++ [⟨a, (dispatch apiPrefix limit s.redis a.time a.request a.answers).2⟩]⟩ := by
  unfold Limiter.step
  split
  · next h => simp [h, eq_comm]
  · next h => simp [h]

theorem requests_concat (identifier : String) (window : ℤ) (served : List Served) (r : Served) :
    requests apiPrefix identifier window (served ++ [r]) =
      requests apiPrefix identifier window served +
        if r.counts apiPrefix identifier window then 1 else 0 := by
  rw [requests, List.countP_append, List.countP_singleton]
  rfl

/-- What is known of the requests so far, with one more. -/
theorem Limiter.Exact.served_concat {s : Limiter} (h : s.Exact apiPrefix limit) {r : Served}
    (hr : r.arrival.request.path ∉ exemptPaths apiPrefix → r.Limited apiPrefix limit s.served)
    (i : ℕ) (r' : Served) (hi : (s.served ++ [r])[i]? = some r')
    (hpath : r'.arrival.request.path ∉ exemptPaths apiPrefix) :
    r'.Limited apiPrefix limit ((s.served ++ [r]).take i) := by
  rcases getElem?_append_singleton hi with hold | ⟨rfl, rfl⟩
  · have hlt := (List.getElem?_eq_some_iff.1 hold).1
    rw [List.take_append_of_le_length (Nat.le_of_lt hlt)]
    exact h.served i r' hold hpath
  · rw [List.take_left]
    exact hr hpath

/-- The counters after one more request that is not exempt. -/
theorem Limiter.Exact.counters_concat {s : Limiter} (h : s.Exact apiPrefix limit) {a : Arrival}
    (hpath : a.request.path ∉ exemptPaths apiPrefix) {e : Entry ℕ (WithTop ℚ)}
    (hv : e.value =
      requests apiPrefix a.request.identifier (windowOf a.time) s.served + 1)
    (hend : (((windowOf a.time + 1) * 60 : ℚ) : WithTop ℚ) ≤ e.expiresAt) (o : DispatchOutcome)
    (identifier : String) (window : ℤ) :
    Holds (Store.set s.redis (counterKey a.request.identifier (windowOf a.time)) e)
      identifier window (requests apiPrefix identifier window (s.served ++ [⟨a, o⟩])) := by
  rw [requests_concat]
  by_cases hk : a.request.identifier = identifier ∧ windowOf a.time = window
  · obtain ⟨rfl, rfl⟩ := hk
    have hc : Served.counts apiPrefix a.request.identifier (windowOf a.time) ⟨a, o⟩ = true := by
      simp [Served.counts, hpath]
    rw [if_pos hc]
    exact ⟨e, by rw [Store.set_apply, if_pos rfl], hv, hend⟩
  · have hc : ¬Served.counts apiPrefix identifier window ⟨a, o⟩ = true := by
      simpa [Served.counts, hpath] using hk
    rw [if_neg hc]
    refine (h.counters identifier window).congr ?_
    rw [Store.set_apply, if_neg]
    intro he
    obtain ⟨h1, h2⟩ := counterKey_injective he
    exact hk ⟨h1.symm, h2.symm⟩

/-- **Requests are counted and decided by their number**, one after the other. -/
theorem Limiter.Exact.step {s s' : Limiter} {a : Arrival} (h : s.Exact apiPrefix limit)
    (hs : Limiter.step apiPrefix limit s a = some s') : s'.Exact apiPrefix limit := by
  have hs' := (Limiter.step_eq_some.1 hs).2
  subst hs'
  by_cases hpath : a.request.path ∈ exemptPaths apiPrefix
  · have hd : dispatch apiPrefix limit s.redis a.time a.request a.answers =
        (s.redis, ⟨true, a.answers.callNext⟩) := if_pos hpath
    rw [hd]
    refine ⟨fun identifier window => ?_, h.served_concat fun hr => absurd hpath hr⟩
    rw [requests_concat, if_neg (by simp [Served.counts, hpath])]
    exact h.counters identifier window
  · obtain ⟨e, hv, hend, hd⟩ := dispatch_counted hpath
      (h.counters a.request.identifier (windowOf a.time)) a.answers
    rw [hd]
    exact ⟨h.counters_concat hpath hv hend _, h.served_concat fun _ => limited_respond rfl⟩

/-- Every request of a run was decided by its number. -/
theorem Limiter.exact_run {now : ℚ} {as : List Arrival} {s : Limiter}
    (hr : run (Limiter.step apiPrefix limit) (.start now) as = some s) :
    s.Exact apiPrefix limit :=
  run_inv Limiter.Exact.step hr
    ⟨fun _ _ => rfl, fun i r h => by cases h⟩

/-- A run serves the requests in their order. -/
theorem Limiter.served_run {now : ℚ} {as : List Arrival} {s : Limiter}
    (hr : run (Limiter.step apiPrefix limit) (.start now) as = some s) :
    s.served.map (·.arrival) = as := by
  induction as using List.reverseRecOn generalizing s with
  | nil => cases hr; rfl
  | append_singleton as a ih =>
    obtain ⟨s₁, h1, h2⟩ := run_concat.1 hr
    obtain ⟨-, rfl⟩ := Limiter.step_eq_some.1 h2
    rw [List.map_append, ih h1]
    rfl

/-! ## At most the limit in a minute, and twice the limit in sixty seconds -/

theorem forwarded_le_requests (identifier : String) (window : ℤ) (served : List Served) :
    forwarded apiPrefix identifier window served ≤ requests apiPrefix identifier window served :=
  List.countP_mono_left fun _ _ hr => (Bool.and_eq_true_iff.1 hr).1

/-- The requests of a minute that were forwarded are at most `limit`, when each was decided by its
number. -/
theorem forwarded_le (hlimit : 0 ≤ limit) (identifier : String) (window : ℤ) {served : List Served}
    (h : ∀ (i : ℕ) (r : Served), served[i]? = some r →
      r.arrival.request.path ∉ exemptPaths apiPrefix → r.Limited apiPrefix limit (served.take i)) :
    (forwarded apiPrefix identifier window served : ℤ) ≤ limit := by
  induction served using List.reverseRecOn with
  | nil => exact hlimit
  | append_singleton served r ih =>
    have hsplit : forwarded apiPrefix identifier window (served ++ [r]) =
        forwarded apiPrefix identifier window served +
          if (r.counts apiPrefix identifier window && r.outcome.forwarded) = true
            then 1 else 0 := by
      rw [forwarded, List.countP_append, List.countP_singleton]
      rfl
    have hold : ∀ (i : ℕ) (r' : Served), served[i]? = some r' →
        r'.arrival.request.path ∉ exemptPaths apiPrefix →
        r'.Limited apiPrefix limit (served.take i) := by
      intro i r' hi hpath
      have hlt := (List.getElem?_eq_some_iff.1 hi).1
      have hl := h i r' (by rw [List.getElem?_append_left hlt]; exact hi) hpath
      rwa [List.take_append_of_le_length (Nat.le_of_lt hlt)] at hl
    rw [hsplit]
    split
    · next hc =>
      -- the last request is one of the counter's, and it passed: its number is at most the limit
      obtain ⟨hc, hf⟩ := Bool.and_eq_true_iff.1 hc
      simp only [Served.counts, decide_eq_true_eq] at hc
      obtain ⟨hpath, rfl, rfl⟩ := hc
      have hl := h served.length r (by simp) hpath
      rw [List.take_left] at hl
      have hnumber := (hl.forwarded_iff.1 hf).1
      have hle := @forwarded_le_requests apiPrefix
        r.arrival.request.identifier (windowOf r.arrival.time) served
      rw [Served.number] at hnumber
      omega
    · exact ih hold

/-- The number of a client's requests between two moments that the application got. -/
def forwardedWithin (apiPrefix identifier : String) (t t' : ℚ) (served : List Served) : ℕ :=
  served.countP fun r =>
    r.arrival.request.path ∉ exemptPaths apiPrefix ∧ r.arrival.request.identifier = identifier ∧
      (t ≤ r.arrival.time ∧ r.arrival.time ≤ t') ∧ r.outcome.forwarded = true

/-- A moment at most sixty seconds later is in the same minute or in the next one. -/
theorem windowOf_eq_or {t t' u : ℚ} (ht : t' - t ≤ 60) (h : t ≤ u) (h' : u ≤ t') :
    windowOf u = windowOf t ∨ windowOf u = windowOf t + 1 := by
  have hlow : windowOf t ≤ windowOf u := Int.floor_mono (by linarith)
  have hhigh : windowOf u ≤ windowOf t + 1 := by
    have hle : u / 60 ≤ t / 60 + 1 := by linarith
    calc windowOf u ≤ ⌊t / 60 + 1⌋ := Int.floor_mono hle
      _ = windowOf t + 1 := Int.floor_add_one _
  omega

/-- What each of two counts sees at least one of is at most their sum. -/
theorem countP_le_add {α : Type} {p q r : α → Bool} (h : ∀ x, p x = true → q x = true ∨ r x = true)
    (l : List α) : l.countP p ≤ l.countP q + l.countP r := by
  induction l with
  | nil => exact Nat.le_refl 0
  | cons x l ih =>
    simp only [List.countP_cons]
    by_cases hp : p x = true
    · rcases h x hp with hq | hr
      · rw [if_pos hp, if_pos hq]
        omega
      · rw [if_pos hp, if_pos hr]
        omega
    · rw [if_neg hp]
      omega

/-- The forwarded requests of sixty seconds are forwarded requests of two minutes. -/
theorem forwardedWithin_le (identifier : String) {t t' : ℚ} (ht : t' - t ≤ 60)
    (served : List Served) :
    forwardedWithin apiPrefix identifier t t' served ≤
      forwarded apiPrefix identifier (windowOf t) served +
        forwarded apiPrefix identifier (windowOf t + 1) served := by
  refine countP_le_add (fun r hr => ?_) served
  obtain ⟨hpath, hi, ⟨hlow, hhigh⟩, hf⟩ := of_decide_eq_true hr
  rcases windowOf_eq_or ht hlow hhigh with hw | hw
  · exact .inl (Bool.and_eq_true_iff.2 ⟨decide_eq_true ⟨hpath, hi, hw⟩, hf⟩)
  · exact .inr (Bool.and_eq_true_iff.2 ⟨decide_eq_true ⟨hpath, hi, hw⟩, hf⟩)

/-! ## The limiter -/

/-- Requests whose times do not decrease are all served. -/
theorem Limiter.run_of_sorted {as : List Arrival} {s : Limiter}
    (hsorted : as.Pairwise fun a b => a.time ≤ b.time) (hnow : ∀ a ∈ as, s.now ≤ a.time) :
    ∃ s', run (Limiter.step apiPrefix limit) s as = some s' := by
  induction as generalizing s with
  | nil => exact ⟨s, rfl⟩
  | cons a as ih =>
    obtain ⟨ha, hsorted⟩ := List.pairwise_cons.1 hsorted
    let s₁ : Limiter :=
      ⟨(dispatch apiPrefix limit s.redis a.time a.request a.answers).1, a.time,
        s.served ++ [⟨a, (dispatch apiPrefix limit s.redis a.time a.request a.answers).2⟩]⟩
    have hs : s.step apiPrefix limit a = some s₁ :=
      Limiter.step_eq_some.2 ⟨hnow a (.head _), rfl⟩
    obtain ⟨s', h⟩ := ih (s := s₁) hsorted ha
    exact ⟨s', run_cons.2 ⟨s₁, hs, h⟩⟩

/-- **The rate limiter is exact.** However many requests arrive, the `k`-th one of a client in a
wall-clock minute is forwarded exactly when `k` is at most the limit and the call of EXPIRE, which
the first request of a minute makes, does not raise; its response says how many are left. So at most
`limit` requests of a client are forwarded in a minute, and at most twice as many in sixty
seconds. -/
theorem Limiter.exact (hlimit : 0 ≤ limit) {now : ℚ} {as : List Arrival}
    (hsorted : as.Pairwise fun a b => a.time ≤ b.time) (hnow : ∀ a ∈ as, now ≤ a.time) :
    ∃ s, run (Limiter.step apiPrefix limit) (.start now) as = some s ∧
      s.served.map (·.arrival) = as ∧
      (∀ (i : ℕ) (r : Served), s.served[i]? = some r →
        r.arrival.request.path ∉ exemptPaths apiPrefix →
        r.Limited apiPrefix limit (s.served.take i)) ∧
      (∀ identifier window, (forwarded apiPrefix identifier window s.served : ℤ) ≤ limit) ∧
      ∀ identifier t t', t' - t ≤ 60 →
        (forwardedWithin apiPrefix identifier t t' s.served : ℤ) ≤ 2 * limit := by
  obtain ⟨s, hr⟩ := @Limiter.run_of_sorted apiPrefix limit as (.start now) hsorted hnow
  have hserved := (Limiter.exact_run hr).served
  refine ⟨s, hr, Limiter.served_run hr, hserved, fun identifier window =>
    forwarded_le hlimit identifier window hserved, ?_⟩
  intro identifier t t' ht
  have hle := @forwardedWithin_le apiPrefix identifier t t' ht s.served
  have h1 := forwarded_le hlimit identifier (windowOf t) hserved
  have h2 := forwarded_le hlimit identifier (windowOf t + 1) hserved
  omega

/-- A request of a host that the middleware does not exempt. -/
private def searchFrom (host : String) : Request := ⟨"/api/v1/events", some host⟩

/-- Two requests of one client around the end of a minute, with a limit of one. -/
theorem Limiter.exact_boundary : ∃ s, run (Limiter.step "/api/v1" 1) (.start 0)
      [⟨59, searchFrom "10.0.0.7", true, false, none⟩,
        ⟨60, searchFrom "10.0.0.7", true, false, none⟩] = some s ∧
    (forwarded "/api/v1" "10.0.0.7" 0 s.served : ℤ) ≤ 1 ∧
    (forwardedWithin "/api/v1" "10.0.0.7" 59 119 s.served : ℤ) ≤ 2 := by
  obtain ⟨s, hr, -, -, hminute, hwithin⟩ := @Limiter.exact "/api/v1" 1 (by omega) 0
    [⟨59, searchFrom "10.0.0.7", true, false, none⟩,
      ⟨60, searchFrom "10.0.0.7", true, false, none⟩] (by norm_num) (by norm_num)
  exact ⟨s, hr, hminute _ _, hwithin _ _ _ (by norm_num)⟩

/-- Without the condition on EXPIRE this fails: with a limit of one, the only request of a minute is
not forwarded when its EXPIRE call raises. -/
theorem Limiter.first_request_lost :
    ¬∀ (apiPrefix : String) (limit : ℤ) (now : ℚ) (as : List Arrival) (s : Limiter), 0 ≤ limit →
      run (Limiter.step apiPrefix limit) (.start now) as = some s →
      ∀ (i : ℕ) (r : Served), s.served[i]? = some r →
        r.arrival.request.path ∉ exemptPaths apiPrefix →
        (r.outcome.forwarded = true ↔ (r.number apiPrefix (s.served.take i) : ℤ) ≤ limit) := by
  intro h
  have hrun : run (Limiter.step "/api/v1" 1) (.start 0)
      [⟨0, searchFrom "10.0.0.7", false, true, none⟩] =
        some ⟨_, 0, [⟨⟨0, searchFrom "10.0.0.7", false, true, none⟩, false, none⟩]⟩ := rfl
  have hfirst := h "/api/v1" 1 0 _ _ (by omega) hrun 0 _ rfl (by decide)
  exact Bool.false_ne_true (hfirst.2 (Int.le_refl 1))

end EventSphere.Api.RateLimit
