import EventSphere.Api.Announcements
import EventSphere.Api.Idempotency
import EventSphere.Api.Operations
import EventSphere.Base.Trace

/-!
# The notifications of an order

The notification worker tells the user what `TICKET_ISSUED` and `ORDER_CANCELLED` say, in the order
in which they were published (`notification_worker.py:26`). Both messages follow a commit of another
request, so they say what happened only if none is lost and none overtakes another. Neither is
guaranteed: a worker that fails after its commit is handed its message again, finds the order
settled and publishes nothing, and a cancellation can commit and publish between the commit and the
message of the worker (`notices_diverge`). `notices_follow` shows that these are the only two ways:
if the messages are published in the order of their commits, and no request fails while it owes one
that would have told something, the messages, without adjacent duplicates, are the moves of the
order.
-/

namespace EventSphere.Api

open Inventory (Settings)

/-- The status that a message tells the user about order `i`. -/
def notice (i : UUID) : Message → Option OrderStatus
  | .ticketIssued orderId _ _ => if orderId = i then some .confirmed else none
  | .orderCancelled orderId _ => if orderId = i then some .cancelled else none
  | _ => none

/-- What the user of order `i` is told. -/
def notices (i : UUID) (ms : List Message) : List OrderStatus := ms.filterMap (notice i)

/-- Only announcements tell anything. -/
theorem notice_of_not_announces {i : UUID} {m : Message} (h : ¬ m.announces = true) :
    notice i m = none := by
  cases m with
  | orderCreated | ticketIssued | orderCancelled => exact absurd rfl h
  | paymentProcessed | reservationExpired => rfl

/-- The message about a status of an order tells that status, and nothing about other orders. -/
theorem notice_settled {i : UUID} {o : Order} {st : OrderStatus} (hp : st ≠ .pending)
    (he : o.id = i → st ≠ .expired) :
    (o.settled st).bind (notice i) = if o.id = i then some st else none := by
  cases st with
  | pending => exact absurd rfl hp
  | confirmed | cancelled => rfl
  | expired =>
    by_cases hi : o.id = i
    · exact absurd rfl (he hi)
    · rw [if_neg hi]; rfl

/-! ## Requests that do not let the order expire -/

/-- Everything but the expiry of order `i`. -/
def lasting (i : UUID) : Permission where
  rpc _ := True
  assign o st := o.id = i → st ≠ .expired
  charge := True

/-- The call hands the order status worker the expiry of order `i`. -/
def ApiCall.expires (i : UUID) : ApiCall → Bool
  | .orderStatusWorker (.reservationExpired _ orderId _) => orderId = i
  | _ => false

/-- Only its expiry lets order `i` expire. -/
theorem ApiCall.needs_lasting {i : UUID} {call : ApiCall} (h : call.expires i = false) :
    call.Needs (lasting i) := by
  cases call with
  | bookTickets => exact fun _ => trivial
  | cancelOrder => exact fun _ _ => ⟨trivial, fun _ => nofun⟩
  | orderStatusWorker m =>
    cases m with
    | paymentProcessed => exact fun _ _ => ⟨⟨trivial, fun _ => nofun⟩, trivial, fun _ => nofun⟩
    | reservationExpired => exact fun o ho he => absurd (ho.symm.trans he) (of_decide_eq_false h)
    | orderCreated | ticketIssued | orderCancelled => trivial
  | paymentWorker | reservationReaper => trivial

/-! ## What is committed, owed and published -/

namespace System

/-- The committed status of order `i`. -/
def statusOf (s : System) (i : UUID) : Option OrderStatus := (s.orders.get i).map (·.status)

/-- The status of order `i` that request `j` has committed and still has to tell. -/
def owes (s : System) (i : UUID) (j : ℕ) : Option OrderStatus := (s.owedAt j).bind (notice i)

/-- A step that moves order `i` to `CONFIRMED` or `CANCELLED`. -/
def move (i : UUID) (s : System) (_ : SystemAction) (s' : System) : List OrderStatus :=
  match s'.statusOf i with
  | some st =>
    if s.statusOf i ≠ some st ∧ (st = .confirmed ∨ st = .cancelled) then [st] else []
  | none => []

/-- The committed moves of order `i` to `CONFIRMED` and `CANCELLED`. -/
def moves (settings : Settings) (i : UUID) (as : List SystemAction) : List OrderStatus :=
  trace (step settings) (move i) .init as

/-- Nobody is handed the expiry of order `i`. -/
def Unexpired (i : UUID) : SystemAction → Prop
  | .begin call => call.expires i = false
  | _ => True

instance (i : UUID) : ∀ a, Decidable (Unexpired i a)
  | .begin _ => inferInstanceAs (Decidable (_ = false))
  | .advance _ _ | .fail _ | .inventory _ => inferInstanceAs (Decidable True)

/-- The requests that owe a message about order `i` after a step, in the order of their commits,
from those that owed one before it. -/
def queued (i : UUID) (s : System) (a : SystemAction) (s' : System) (queue : List ℕ) : List ℕ :=
  queue.filter (fun j => s'.owes i j ≠ none) ++
    match a with
    | .advance j _ => if s.owes i j = none ∧ s'.owes i j ≠ none then [j] else []
    | _ => []

/-- A request publishes a message about order `i` only if those that have committed before it and
still owe one owe the same, and fails while it owes one only if that would tell nothing new: the
message before it or after it, in the order of the commits, is the same. The history is `queued`. -/
def InTurn (i : UUID) (x : System × List ℕ) : SystemAction → Prop
  | .advance j _ => ∀ st ∈ x.1.owes i j, ∀ j' ∈ x.2.takeWhile (· ≠ j), x.1.owes i j' = some st
  | .fail j => ∀ st ∈ x.1.owes i j,
    (notices i x.1.published ++
      (x.2.takeWhile (· ≠ j)).filterMap (x.1.owes i)).getLast? = some st ∨
    ((x.2.dropWhile (· ≠ j)).tail.filterMap (x.1.owes i)).head? = some st
  | _ => True

instance (i : UUID) (x : System × List ℕ) : ∀ a, Decidable (InTurn i x a)
  | .advance _ _ => inferInstanceAs (Decidable (∀ st ∈ _, ∀ j' ∈ _, _))
  | .fail _ => inferInstanceAs (Decidable (∀ st ∈ _, _ ∨ _))
  | .begin _ | .inventory _ => inferInstanceAs (Decidable True)

/-- No running request lets order `i` expire. -/
def Enduring (i : UUID) (s : System) : Prop :=
  s.Everywhere fun _ p σ =>
    p.Within (lasting i) ∧ ∀ o st, σ.status = some (o, st) → (lasting i).assign o st

/-- What has been told about order `i`, and then what is still owed in the order of the commits, are
its moves so far. -/
structure Told (i : UUID) (s : System) (queue : List ℕ) (ms : List OrderStatus) : Prop where
  nodup : queue.Nodup
  mem : ∀ {j}, j ∈ queue ↔ s.owes i j ≠ none
  last : ms.getLast? = (s.statusOf i).filter (· ≠ .pending)
  told : (notices i s.announced ++ queue.filterMap (s.owes i)).destutter (· ≠ ·) = ms

/-- The invariant that carries `notices_follow`, with the moves so far. -/
structure Following (settings : Settings) (i : UUID) (x : System × List ℕ)
    (ms : List OrderStatus) : Prop where
  inv : x.1.Inv settings fun _ => True
  tells : x.1.Telling
  lasts : x.1.Enduring i
  told : x.1.Told i x.2 ms

theorem following_init (settings : Settings) (i : UUID) : Following settings i (.init, []) [] where
  inv := inv_init settings _
  tells := telling_init
  lasts _ _ _ _ _ h := nomatch h
  told := ⟨List.nodup_nil, iff_of_false List.not_mem_nil fun h => h rfl, rfl, rfl⟩

section
variable {settings : Settings} {i : UUID} {s s' : System} {j : ℕ} {a : SystemAction}
  {queue : List ℕ} {ms : List OrderStatus}

/-- What is not announced tells nothing. -/
theorem notices_announced (s : System) (i : UUID) :
    notices i s.announced = notices i s.published := by
  unfold notices announced
  induction s.published with
  | nil => rfl
  | cons m l ih =>
    rw [List.filter_cons]
    split
    · rw [List.filterMap_cons, List.filterMap_cons, ih]
    · next hm => rw [ih, List.filterMap_cons, notice_of_not_announces hm]

/-- Requests that do not let the order expire do not do so after a step. -/
theorem Enduring.step (h : s.Enduring i) (hE : Unexpired i a) (hs : s.step settings a = some s') :
    s'.Enduring i := by
  refine Everywhere.step h (closed_within fun _ => lasting i) hs fun call ha => ?_
  subst ha
  exact ⟨ApiCall.body_within (ApiCall.needs_lasting hE), nofun⟩

/-- What is owed about the order after a change of what one request owes. -/
theorem owes_update {x : Option Message} (h : s'.owedAt = Function.update s.owedAt j x) (j' : ℕ) :
    s'.owes i j' = if j' = j then x.bind (notice i) else s.owes i j' := by
  rw [owes, h, Function.update_apply]
  split
  · rfl
  · rfl

/-- A request that owed nothing about the order, and still does not. -/
theorem owes_same {x : Option Message} (h : s'.owedAt = Function.update s.owedAt j x)
    (hx : x.bind (notice i) = none) (hj : s.owes i j = none) (j' : ℕ) :
    s'.owes i j' = s.owes i j' := by
  rw [owes_update h]
  split
  · next he => rw [hx, he, hj]
  · rfl

/-- A step after which nobody owes a message who did not owe one before. -/
theorem queued_of_owes (h : ∀ j, s'.owes i j ≠ none → s.owes i j ≠ none) :
    queued i s a s' queue = queue.filter fun j => s'.owes i j ≠ none := by
  unfold queued
  split
  · next j _ => rw [if_neg fun hj => h j hj.2 hj.1, List.append_nil]
  · exact List.append_nil _

namespace Told

/-- The status of the order is the last of what has been told and what is owed. -/
theorem getLast (h : s.Told i queue ms) {st : OrderStatus} (hst : st ≠ .pending) :
    (notices i s.announced ++ queue.filterMap (s.owes i)).getLast? = some st ↔
      s.statusOf i = some st := by
  rw [← getLast?_destutter, h.told, h.last, Option.filter_eq_some_iff]
  simp [hst]

/-- A step that neither settles the order nor tells anything about it. -/
theorem same (h : s.Told i queue ms)
    (hst : (s'.statusOf i).filter (· ≠ .pending) = (s.statusOf i).filter (· ≠ .pending))
    (hn : notices i s'.announced = notices i s.announced) (ho : ∀ j, s'.owes i j = s.owes i j) :
    s'.Told i (queued i s a s' queue) ms := by
  have hqueue : queued i s a s' queue = queue := by
    rw [queued_of_owes fun j hj => by rwa [← ho j], List.filter_eq_self]
    exact fun j hj => decide_eq_true (by rw [ho]; exact h.mem.1 hj)
  rw [hqueue]
  refine ⟨h.nodup, fun {j} => by rw [ho]; exact h.mem, h.last.trans hst.symm, ?_⟩
  rw [hn, funext ho]
  exact h.told

/-- Request `j` settles the order. -/
theorem settle (h : s.Told i queue ms) {st : OrderStatus} {inp : ApiInput} (hne : st ≠ .pending)
    (hst' : s'.statusOf i = some st) (hn : notices i s'.announced = notices i s.announced)
    (hj : s.owes i j = none) (ho : ∀ j', s'.owes i j' = if j' = j then some st else s.owes i j') :
    s'.Told i (queued i s (.advance j inp) s' queue)
      (ms ++ if s.statusOf i ≠ some st then [st] else []) := by
  have hnot : j ∉ queue := fun hmem => h.mem.1 hmem hj
  have hold : ∀ j' ∈ queue, s'.owes i j' = s.owes i j' := fun j' hj' => by
    rw [ho, if_neg (ne_of_mem_of_not_mem hj' hnot)]
  have hnew : s'.owes i j = some st := by rw [ho, if_pos rfl]
  have hqueue : queued i s (.advance j inp) s' queue = queue ++ [j] := by
    rw [queued, if_pos ⟨hj, by rw [hnew]; exact Option.some_ne_none st⟩, List.filter_eq_self.2]
    exact fun j' hj' => decide_eq_true (by rw [hold j' hj']; exact h.mem.1 hj')
  have howed : (queue ++ [j]).filterMap (s'.owes i) = queue.filterMap (s.owes i) ++ [st] := by
    rw [List.filterMap_append, List.filterMap_congr hold]
    simp [hnew]
  have htold : (notices i s'.announced ++ (queue ++ [j]).filterMap (s'.owes i)).destutter (· ≠ ·) =
      ms ++ if s.statusOf i ≠ some st then [st] else [] := by
    rw [hn, howed, ← List.append_assoc, destutter_concat, h.told]
    by_cases hs : s.statusOf i = some st
    · rw [if_pos ((h.getLast hne).2 hs), if_neg (not_not.2 hs), List.append_nil]
    · rw [if_neg (mt (h.getLast hne).1 hs), if_pos hs]
  rw [hqueue]
  refine ⟨?_, fun {j'} => ?_, ?_, htold⟩
  · refine List.nodup_append.2 ⟨h.nodup, List.nodup_singleton j, fun j' hj' k hk => ?_⟩
    rw [List.mem_singleton.1 hk]
    exact ne_of_mem_of_not_mem hj' hnot
  · rw [List.mem_append, List.mem_singleton, h.mem, ho]
    by_cases he : j' = j
    · simp [he]
    · simp [he]
  · rw [← htold, getLast?_destutter, howed, ← List.append_assoc, List.getLast?_concat, hst',
      Option.filter_some, if_pos (decide_eq_true hne)]

/-- Where request `j` stands among those that owe a message. -/
theorem owed_split (h : s.Told i queue ms) {st : OrderStatus} (hj : s.owes i j = some st) :
    queue.filterMap (s.owes i) = (queue.takeWhile (· ≠ j)).filterMap (s.owes i) ++
      st :: (queue.dropWhile (· ≠ j)).tail.filterMap (s.owes i) := by
  have hmem : j ∈ queue := h.mem.2 (by rw [hj]; exact Option.some_ne_none st)
  conv_lhs => rw [← takeWhile_append_cons_tail hmem, List.filterMap_append, List.filterMap_cons, hj]

/-- Request `j` owes nothing any more, and what has been told and is owed still says the same. -/
theorem dequeue (h : s.Told i queue ms) (hst : s'.statusOf i = s.statusOf i)
    (ho : ∀ j', s'.owes i j' = if j' = j then none else s.owes i j')
    (htold : (notices i s'.announced ++ ((queue.takeWhile (· ≠ j)).filterMap (s.owes i) ++
      (queue.dropWhile (· ≠ j)).tail.filterMap (s.owes i))).destutter (· ≠ ·) = ms) :
    s'.Told i (queued i s a s' queue) ms := by
  have hmem : ∀ {j'}, s'.owes i j' ≠ none ↔ j' ≠ j ∧ s.owes i j' ≠ none := fun {j'} => by
    rw [ho]
    by_cases he : j' = j
    · simp [he]
    · simp [he]
  have hqueue : queued i s a s' queue = queue.filter (· ≠ j) := by
    rw [queued_of_owes fun j' hj' => (hmem.1 hj').2]
    refine List.filter_congr fun j' hj' => decide_eq_decide.2 ?_
    exact hmem.trans (and_iff_left (h.mem.1 hj'))
  have howed : (queue.filter (· ≠ j)).filterMap (s'.owes i) =
      (queue.filter (· ≠ j)).filterMap (s.owes i) :=
    List.filterMap_congr fun j' hj' => by
      rw [ho, if_neg (of_decide_eq_true (List.mem_filter.1 hj').2)]
  rw [hqueue]
  refine ⟨h.nodup.filter _, fun {j'} => ?_, by rw [hst]; exact h.last, ?_⟩
  · rw [List.mem_filter, hmem, h.mem, decide_eq_true_iff, and_comm]
  · rw [howed, filter_ne_eq h.nodup j, List.filterMap_append]
    exact htold

/-- Request `j` publishes what it owes, while all that have committed before it owe the same. -/
theorem publish (h : s.Told i queue ms) {st : OrderStatus} (hj : s.owes i j = some st)
    (hst : s'.statusOf i = s.statusOf i)
    (hn : notices i s'.announced = notices i s.announced ++ [st])
    (ho : ∀ j', s'.owes i j' = if j' = j then none else s.owes i j')
    (hturn : ∀ j' ∈ queue.takeWhile (· ≠ j), s.owes i j' = some st) :
    s'.Told i (queued i s a s' queue) ms := by
  refine h.dequeue hst ho ?_
  have hbefore : (queue.takeWhile (· ≠ j)).filterMap (s.owes i) =
      List.replicate (queue.takeWhile (· ≠ j)).length st := by
    rw [List.filterMap_congr hturn, List.filterMap_eq_map', List.map_const']
  have htold := h.told
  rw [h.owed_split hj, hbefore] at htold
  -- the same message first or last among equal ones
  rw [hn, hbefore, List.append_assoc, ← List.append_assoc [st], List.singleton_append,
    ← List.replicate_succ, List.replicate_succ', List.append_assoc, List.singleton_append]
  exact htold

/-- Request `j` fails while it owes a message that stands next to an equal one. -/
theorem drop (h : s.Told i queue ms) {st : OrderStatus} (hj : s.owes i j = some st)
    (hst : s'.statusOf i = s.statusOf i) (hn : notices i s'.announced = notices i s.announced)
    (ho : ∀ j', s'.owes i j' = if j' = j then none else s.owes i j')
    (hdrop : (notices i s.announced ++
        (queue.takeWhile (· ≠ j)).filterMap (s.owes i)).getLast? = some st ∨
      ((queue.dropWhile (· ≠ j)).tail.filterMap (s.owes i)).head? = some st) :
    s'.Told i (queued i s a s' queue) ms := by
  refine h.dequeue hst ho ?_
  rw [hn, ← List.append_assoc, ← destutter_erase hdrop, List.append_assoc, ← h.owed_split hj]
  exact h.told

end Told

/-- A step that leaves the status alone is no move. -/
theorem move_of_eq (h : s'.statusOf i = s.statusOf i) : move i s a s' = [] := by
  rw [move, h]
  cases s.statusOf i with
  | none => rfl
  | some st => exact if_neg fun hne => hne.1 rfl

/-- A step that leaves the order settled is a move, if the status is new. -/
theorem move_of_settled {st : OrderStatus} (h : s'.statusOf i = some st) (hp : st ≠ .pending)
    (he : st ≠ .expired) : move i s a s' = if s.statusOf i ≠ some st then [st] else [] := by
  have hst : st = .confirmed ∨ st = .cancelled := by
    cases st with
    | pending => exact absurd rfl hp
    | expired => exact absurd rfl he
    | confirmed => exact .inl rfl
    | cancelled => exact .inr rfl
  rw [move, h]
  simp [hst]

/-- A step that moves the order nowhere, and after which the same is owed and told about it. -/
theorem Told.same_step (h : s.Told i queue ms) (hst : s'.statusOf i = s.statusOf i)
    (hn : notices i s'.announced = notices i s.announced) (ho : ∀ j, s'.owes i j = s.owes i j) :
    s'.Told i (queued i s a s' queue) (ms ++ move i s a s') := by
  rw [move_of_eq hst, List.append_nil]
  exact h.same (by rw [hst]) hn ho

/-- The status of the order after a commit that inserts or changes another one. -/
theorem statusOf_set_of_ne {o : Order} (ho : s'.orders = s.orders.set o) (hne : o.id ≠ i) :
    s'.statusOf i = s.statusOf i := by
  rw [statusOf, ho, Table.get_set_of_ne _ (Ne.symm hne)]
  rfl

/-- The status of the order after a commit that inserts or changes it. -/
theorem statusOf_set_self {o : Order} (ho : s'.orders = s.orders.set o) :
    s'.statusOf o.id = some o.status := by
  rw [statusOf, ho, get_set_order]
  rfl

/-- A commit keeps what has been told. -/
theorem Following.told_commit (h : Following settings i (s, queue) ms) {call : ApiCall}
    {p : ApiProg (Option Order)} {σ : ApiSession} {inp : ApiInput}
    (hj : s.requests[j]? = some (.running call (.commit p) σ none))
    (ho : s'.orders = σ.view s.orders) (hp : s'.announced = s.announced)
    (hw : s'.owedAt = Function.update s.owedAt j σ.announcement) :
    s'.Told i (queued i s (.advance j inp) s' queue) (ms ++ move i s (.advance j inp) s') := by
  obtain ⟨F, hF⟩ := h.inv.request hj
  have hnone : s.owes i j = none := by rw [owes, owedAt, hj]; rfl
  have hn : notices i s'.announced = notices i s.announced := by rw [hp]
  have hkind := hF.commit_kind
  rw [← ho] at hkind
  generalize horders : s'.orders = orders at hkind
  cases hkind with
  | nothing hi hs =>
    refine h.told.same_step (by rw [statusOf, horders]; rfl) hn (owes_same hw ?_ hnone)
    rw [ApiSession.announcement, hi, hs]
    rfl
  | @inserted o hi hs hadd =>
    have hann : σ.announcement.bind (notice i) = none := by
      rw [ApiSession.announcement, hi]
      rfl
    by_cases hne : o.id = i
    · -- the order is new, and nobody is told about a pending one
      have hold : s.statusOf i = none := by
        rw [statusOf, ← hne, (h.inv.new hj hi).get_eq_none]
        rfl
      have hnew : s'.statusOf i = some .pending := by
        rw [← hne, statusOf_set_self horders, hadd.status]
      have hmove : move i s (.advance j inp) s' = [] := by
        rw [move, hnew]
        refine if_neg fun hm => ?_
        rcases hm.2 with he | he <;> cases he
      rw [hmove, List.append_nil]
      refine h.told.same ?_ hn (owes_same hw hann hnone)
      rw [hold, hnew]
      rfl
    · exact h.told.same_step (statusOf_set_of_ne horders hne) hn (owes_same hw hann hnone)
  | @updated o cur st hi hs hassign hcur hsucc =>
    have hpend : st ≠ .pending := by
      rintro rfl
      rcases hassign.moves with ⟨-, hne⟩ | ⟨-, he⟩
      · exact hne rfl
      · cases he
    have hexp : o.id = i → st ≠ .expired := (h.lasts hj).2 o st hs
    have hann : σ.announcement.bind (notice i) = if o.id = i then some st else none := by
      rw [ApiSession.announcement, hi, hs]
      exact notice_settled hpend hexp
    by_cases hne : o.id = i
    · have hst' : s'.statusOf i = some st := by
        rw [← hne, ← hsucc.id_eq]
        exact statusOf_set_self horders
      rw [move_of_settled hst' hpend (hexp hne)]
      refine h.told.settle hpend hst' hn hnone fun j' => ?_
      rw [owes_update hw, hann, if_pos hne]
    · refine h.told.same_step (statusOf_set_of_ne horders ?_) hn (owes_same hw ?_ hnone)
      · rw [← hsucc.id_eq] at hne
        exact hne
      · rw [hann, if_neg hne]

/-- **Every step that happens in turn keeps what has been told.** -/
theorem Following.told_step (h : Following settings i (s, queue) ms) (hT : InTurn i (s, queue) a)
    (hs : s.step settings a = some s') :
    s'.Told i (queued i s a s' queue) (ms ++ move i s a s') := by
  have hkind := h.tells.tell_kind hs
  have hstatus : s'.orders = s.orders → s'.statusOf i = s.statusOf i := fun ho => by
    rw [statusOf, ho]
    rfl
  cases hkind with
  | quiet ho hp hw =>
    exact h.told.same_step (hstatus ho) (by rw [hp]) fun j => by rw [owes, hw]; rfl
  | commits hj ho hp hw => exact h.told_commit hj ho hp hw
  | @publishes j inp m _ hm ho hp hw =>
    cases hni : notice i m with
    | none =>
      refine h.told.same_step (hstatus ho) ?_ (owes_same hw rfl (by rw [owes, hm]; exact hni))
      rw [hp, notices, List.filterMap_append]
      simp [notices, hni]
    | some st =>
      rw [move_of_eq (hstatus ho), List.append_nil]
      have howes : s.owes i j = some st := by rw [owes, hm]; exact hni
      refine h.told.publish howes (hstatus ho) ?_ (owes_update hw) (hT st howes)
      rw [hp, notices, List.filterMap_append]
      simp [notices, hni]
  | @drops j m _ hm ho hp hw =>
    cases hni : notice i m with
    | none =>
      exact h.told.same_step (hstatus ho) (by rw [hp])
        (owes_same hw rfl (by rw [owes, hm]; exact hni))
    | some st =>
      rw [move_of_eq (hstatus ho), List.append_nil]
      have howes : s.owes i j = some st := by rw [owes, hm]; exact hni
      refine h.told.drop howes (hstatus ho) (by rw [hp]) (owes_update hw) ?_
      rw [notices_announced]
      exact hT st howes

/-- The invariant after a step that happens in turn. -/
theorem Following.step {x x' : System × List ℕ} (h : Following settings i x ms)
    (hE : Unexpired i a) (hT : InTurn i x a)
    (hs : withHistory (System.step settings) (queued i) x a = some x') :
    Following settings i x' (ms ++ move i x.1 a x'.1) := by
  obtain ⟨s', hs', rfl⟩ := Option.map_eq_some_iff.1 hs
  exact {
    inv := h.inv.step hs' fun _ _ _ _ _ _ _ _ _ => trivial
    tells := h.tells.step hs'
    lasts := h.lasts.step hE hs'
    told := h.told_step hT hs' }

/-- Nobody owes anything once all requests have ended. -/
theorem owes_eq_none (h : ∀ r ∈ s.requests, r.ended = true) (j : ℕ) : s.owes i j = none := by
  rw [owes, owedAt]
  cases hj : s.requests[j]? with
  | none => rfl
  | some r =>
    cases r with
    | running => cases h _ (List.mem_of_getElem? hj)
    | done => rfl

end

/-- **The notifications of an order follow its moves.** For every order, and every interleaving of
bookings, cancellations, payments and their workers, which may fail at any step and be handed their
messages again: if the messages about the order are published in turn, they tell, without adjacent
duplicates and once all requests have ended, exactly the moves of the order to `CONFIRMED` and
`CANCELLED`. -/
theorem notices_follow (settings : Settings) (i : UUID) (as : List SystemAction) (s : System)
    (hr : run (step settings) .init as = some s) (hE : ∀ a ∈ as, Unexpired i a)
    (hT : Along (withHistory (step settings) (queued i)) (InTurn i) (.init, []) as)
    (hd : ∀ r ∈ s.requests, r.ended = true) :
    (notices i s.published).destutter (· ≠ ·) = moves settings i as := by
  obtain ⟨queue, hrun⟩ := run_withHistory (queued i) hr []
  have hstep : ∀ {x a x'} {ms : List OrderStatus}, Following settings i x ms →
      Unexpired i a ∧ InTurn i x a → withHistory (step settings) (queued i) x a = some x' →
      Following settings i x' (ms ++ move i x.1 a x'.1) := fun h hC hs => h.step hC.1 hC.2 hs
  have h : Following settings i (s, queue) ([] ++ trace (withHistory (step settings) (queued i))
      (fun x a x' => move i x.1 a x'.1) (.init, []) as) :=
    run_trace_along hstep ((along_of_forall_mem hE).and hT) hrun (following_init settings i)
  have hqueue : queue = [] :=
    List.eq_nil_iff_forall_not_mem.2 fun j hj => h.told.mem.1 hj (owes_eq_none hd j)
  have htold := h.told.told
  rw [hqueue, List.filterMap_nil, List.append_nil, notices_announced, List.nil_append] at htold
  exact htold.trans (trace_withHistory (step settings) (queued i) (move i) .init [] as)

/-! ## A confirmed order and its cancellation -/

/-- The order status worker is handed the payment of an order and runs `n` operations after the
confirmation of the reservation. -/
def confirmed (n : ℕ) : List SystemAction :=
  paidOrder ++ [.begin (.orderStatusWorker (.paymentProcessed ⟨3⟩ true "mock_txn_0"))] ++
  advances 2 2 ++ inventoryAdvances 2 6 ++ advances 2 n

/-- The user cancels the order, which runs `n` operations after the release of the reservation. -/
def cancellation (n : ℕ) : List SystemAction :=
  [.begin (.cancelOrder ⟨3⟩ ⟨2⟩)] ++ advances 3 2 ++ inventoryAdvances 3 6 ++ advances 3 n

/-- The user cancels the order between the commit and the message of the worker, and is told of the
ticket first. -/
def confirmedThenCancelled : List SystemAction :=
  confirmed 3 ++ cancellation 3 ++ advances 2 2 ++ advances 3 2

/-- The user is told of the ticket and of the cancellation. -/
theorem confirmedThenCancelled_told :
    ∃ s, run (step .default) .init confirmedThenCancelled = some s ∧
      (notices ⟨3⟩ s.published).destutter (· ≠ ·) = moves .default ⟨3⟩ confirmedThenCancelled ∧
      moves .default ⟨3⟩ confirmedThenCancelled = [.confirmed, .cancelled] := by
  obtain ⟨s, hs, h⟩ : ∃ s, run (step .default) .init confirmedThenCancelled = some s ∧
      ∀ r ∈ s.requests, r.ended = true :=
    exists_of_run (by decide +kernel)
  refine ⟨s, hs, ?_, by decide +kernel⟩
  exact notices_follow .default ⟨3⟩ confirmedThenCancelled s hs (by decide +kernel)
    (by decide +kernel) h

/-- The worker fails between its commit and its message, and is handed the payment again. -/
def lostTicket : List SystemAction :=
  confirmed 3 ++ [.fail 2, .begin (.orderStatusWorker (.paymentProcessed ⟨3⟩ true "mock_txn_0"))] ++
  advances 3 2

/-- The user cancels the order between the commit and the message of the worker. -/
def overtakenTicket : List SystemAction := confirmed 3 ++ cancellation 5 ++ advances 2 2

/-- **The user can be told too little, and in the wrong order.** A worker that has failed returns
when it is handed the payment again, and the ticket is never issued; a cancellation overtakes the
ticket of the order, and the last thing the user is told is that the order is confirmed. -/
theorem notices_diverge :
    (∃ s, run (step .default) .init lostTicket = some s ∧ (∀ a ∈ lostTicket, Unexpired ⟨3⟩ a) ∧
      (∀ r ∈ s.requests, r.ended = true) ∧
      (s.requests[3]?).bind outcome = some (.returned none) ∧
      (notices ⟨3⟩ s.published).destutter (· ≠ ·) = [] ∧
      moves .default ⟨3⟩ lostTicket = [.confirmed]) ∧
    ∃ s, run (step .default) .init overtakenTicket = some s ∧
      (∀ a ∈ overtakenTicket, Unexpired ⟨3⟩ a) ∧ (∀ r ∈ s.requests, r.ended = true) ∧
      (notices ⟨3⟩ s.published).destutter (· ≠ ·) = [.cancelled, .confirmed] ∧
      moves .default ⟨3⟩ overtakenTicket = [.confirmed, .cancelled] := by
  obtain ⟨s, hs, hd, hout, hn⟩ : ∃ s, run (step .default) .init lostTicket = some s ∧
      (∀ r ∈ s.requests, r.ended = true) ∧
      (s.requests[3]?).bind outcome = some (.returned none) ∧
      (notices ⟨3⟩ s.published).destutter (· ≠ ·) = [] :=
    exists_of_run (by decide +kernel)
  obtain ⟨s', hs', hd', hn'⟩ : ∃ s, run (step .default) .init overtakenTicket = some s ∧
      (∀ r ∈ s.requests, r.ended = true) ∧
      (notices ⟨3⟩ s.published).destutter (· ≠ ·) = [.cancelled, .confirmed] :=
    exists_of_run (by decide +kernel)
  exact ⟨⟨s, hs, by decide +kernel, hd, hout, hn, by decide +kernel⟩,
    s', hs', by decide +kernel, hd', hn', by decide +kernel⟩

end System

end EventSphere.Api
