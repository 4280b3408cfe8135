import OrcState.Control.Dispatch

/-!
# A request is applied at most once

A sender tries again only after an answer that nothing was applied, or after an
attempt that never reached a server.  So at most one of its connections can still
lead to `applyLifecycle`, and none once the request has been applied.  The answer
that it could not be delivered is as good as the result: then it never will be.
-/

namespace OrcState.Control.Dispatch

open OrcState.Foundation

variable {σ : Type} {requests : Requests σ} {s t : State σ}

/-! ## What holds between the parties -/

/-- The request may still be applied over this connection. -/
def Connection.isOpen (connection : Connection) : Bool :=
  match connection.stage with
  | .arrived | .reading => true
  | .answered _ | .gone => false

/-- How often a request has been applied, as far as its sender can tell. -/
def Sender.allows : Sender → Nat → Prop
  | .idle, times | .calling _, times | .delaying _, times => times = 0
  | .waiting _ _, times => times ≤ 1
  | .returned, times => times = 1
  | .failed failure, times =>
      times ≤ 1 ∧ (failure = .control .unavailable → times = 0)

def Sender.expects : Sender → Nat → Prop
  | .waiting _ connection, n => n = connection
  | .failed .other, _ => True
  | _, _ => False

/-- An answer tells the truth about whether the request was applied. -/
def Truthful (times : Nat) : Except ControlErrorCode Unit → Prop
  | .ok _ => times = 1
  | .error code => code = .unavailable → times = 0

structure Inv (s : State σ) : Prop where
  allowed : ∀ c, (s.senders c).allows (s.applied.count c)
  opens : ∀ n connection, s.connections n = some connection →
    connection.isOpen = true →
      s.applied.count connection.sender = 0 ∧
        (s.senders connection.sender).expects n
  alone : ∀ n m one other, s.connections n = some one →
    s.connections m = some other → one.isOpen = true → other.isOpen = true →
      one.sender = other.sender → n = m
  awaited : ∀ c deadline n, s.senders c = .waiting deadline n →
    ∃ connection, s.connections n = some connection ∧ connection.sender = c ∧
      ∀ reply, connection.stage = .answered reply →
        Truthful (s.applied.count c) reply
  later : ∀ n, s.opened ≤ n → s.connections n = none

theorem Sender.allows.le_one {sender : Sender} {times : Nat}
    (h : sender.allows times) : times ≤ 1 := by
  cases sender with
  | failed failure => exact h.1
  | _ => simp only [Sender.allows] at h; omega

theorem allows_fail {deadline now : Int} {failure : Failure} {times : Nat}
    (hle : times ≤ 1) (h : failure = .control .unavailable → times = 0) :
    (Sender.fail deadline now failure).allows times := by
  unfold Sender.fail
  split
  · exact ⟨hle, h⟩
  · rename_i hretry
    exact h (by_contra fun hne => hretry (.inl hne))

theorem fail_ne_waiting {deadline now other : Int} {failure : Failure} {n : Nat} :
    Sender.fail deadline now failure ≠ .waiting other n := by
  unfold Sender.fail
  split <;> simp

/-! ## The steps -/

theorem Inv.setSender (hs : Inv s) {c : Nat} {sender : Sender}
    (hallows : sender.allows (s.applied.count c))
    (hopens : ∀ n connection, s.connections n = some connection →
      connection.isOpen = true → connection.sender = c → sender.expects n)
    (hnew : ∀ deadline n, sender ≠ .waiting deadline n) :
    Inv (s.setSender c sender) where
  allowed d := by
    by_cases h : d = c
    · subst h
      simpa using hallows
    · simpa [h] using hs.allowed d
  opens n connection hn hopen := by
    obtain ⟨hzero, hexpects⟩ := hs.opens n connection hn hopen
    refine ⟨hzero, ?_⟩
    by_cases h : connection.sender = c
    · simpa [h] using hopens n connection hn hopen h
    · simpa [h] using hexpects
  alone := hs.alone
  awaited d deadline n hd := by
    by_cases h : d = c
    · subst h
      rw [State.setSender_self] at hd
      exact absurd hd (hnew deadline n)
    · rw [State.setSender_other s c sender h] at hd
      exact hs.awaited d deadline n hd
  later := hs.later

theorem Inv.no_open (hs : Inv s) {c : Nat} (h : ∀ n, ¬(s.senders c).expects n) :
    ∀ n connection, s.connections n = some connection →
      connection.isOpen = true → connection.sender ≠ c := by
  rintro n connection hn hopen rfl
  exact h n (hs.opens n connection hn hopen).2

/-- A new attempt, of a request that no earlier one can still apply. -/
theorem Inv.sent (hs : Inv s) {c : Nat} {deadline : Int} {connection : Connection}
    (hzero : s.applied.count c = 0)
    (hnone : ∀ n connection, s.connections n = some connection →
      connection.isOpen = true → connection.sender ≠ c)
    (hsender : connection.sender = c) (hstage : connection.stage = .arrived) :
    Inv (State.setSender
      { s with
        connections := Function.update s.connections s.opened (some connection)
        opened := s.opened + 1 } c (.waiting deadline s.opened)) where
  allowed d := by
    by_cases h : d = c
    · subst h
      simp only [State.setSender_self, State.setSender_applied, Sender.allows]
      omega
    · simpa [h] using hs.allowed d
  opens n other hn hopen := by
    simp only [State.setSender_connections, State.setSender_applied] at hn ⊢
    by_cases h : n = s.opened
    · subst h
      rw [Function.update_self] at hn
      cases hn
      simp [hsender, hzero, Sender.expects]
    · rw [Function.update_of_ne h] at hn
      obtain ⟨hcount, hexpects⟩ := hs.opens n other hn hopen
      have hother := hnone n other hn hopen
      exact ⟨hcount, by simpa [hother] using hexpects⟩
  alone n m one other hn hm hone hopen heq := by
    simp only [State.setSender_connections] at hn hm
    by_cases h : n = s.opened
    · by_cases h' : m = s.opened
      · rw [h, h']
      · subst h
        rw [Function.update_self] at hn
        rw [Function.update_of_ne h'] at hm
        cases hn
        exact absurd (heq.symm.trans hsender) (hnone m other hm hopen)
    · by_cases h' : m = s.opened
      · subst h'
        rw [Function.update_of_ne h] at hn
        rw [Function.update_self] at hm
        cases hm
        exact absurd (heq.trans hsender) (hnone n one hn hone)
      · rw [Function.update_of_ne h] at hn
        rw [Function.update_of_ne h'] at hm
        exact hs.alone n m one other hn hm hone hopen heq
  awaited d other n hd := by
    simp only [State.setSender_connections, State.setSender_applied]
    by_cases h : d = c
    · subst h
      rw [State.setSender_self] at hd
      cases hd
      exact ⟨connection, Function.update_self .., hsender, by simp [hstage]⟩
    · rw [State.setSender_other _ c _ h] at hd
      obtain ⟨one, hone, hone_sender, hreply⟩ := hs.awaited d other n hd
      have hne : n ≠ s.opened := by
        rintro rfl
        rw [hs.later _ (Nat.le_refl _)] at hone
        cases hone
      exact ⟨one, by rwa [Function.update_of_ne hne], hone_sender, hreply⟩
  later n hn := by
    simp only [State.setSender] at hn ⊢
    rw [Function.update_of_ne (by omega)]
    exact hs.later n (by omega)

theorem Inv.call (hs : Inv s) {c : Nat} {fault : Option Errno} {now : Int}
    (h : s.call requests c fault now = some t) : Inv t := by
  unfold State.call at h
  cases hc : s.senders c with
  | calling deadline =>
      have hzero : s.applied.count c = 0 := by
        have := hs.allowed c
        rwa [hc] at this
      have hnone := hs.no_open (c := c) (by simp [hc, Sender.expects])
      have hfail : ∀ failure, Inv (s.setSender c (.fail deadline now failure)) := by
        intro failure
        apply hs.setSender
        · exact allows_fail (by omega) fun _ => hzero
        · intro n connection hn hopen hsender
          exact absurd hsender (hnone n connection hn hopen)
        · intro other n
          exact fail_ne_waiting
      rw [hc] at h
      simp only at h
      split at h
      · cases h
        exact hfail _
      · split at h
        · cases h
          exact hfail _
        · cases h
          exact hfail _
        · cases h
          exact hs.sent hzero hnone rfl rfl
  | _ => simp [hc] at h

theorem Inv.receive (hs : Inv s) {c : Nat} {timeout : Bool} {now : Int}
    (h : s.receive c timeout now = some t) : Inv t := by
  unfold State.receive at h
  cases hc : s.senders c with
  | waiting deadline n =>
      obtain ⟨connection, hn, -, hreply⟩ := hs.awaited c deadline n hc
      have hle := (hs.allowed c).le_one
      have hmine : ∀ m other, s.connections m = some other → other.isOpen = true →
          other.sender = c → m = n := by
        intro m other hm hopen hsender
        have hexpects := (hs.opens m other hm hopen).2
        rwa [hsender, hc] at hexpects
      simp only [hc, hn] at h
      split at h
      · rename_i reply hanswered
        cases hanswered
        have hclosed : ∀ m other, s.connections m = some other →
            other.isOpen = true → other.sender ≠ c := by
          intro m other hm hopen hsender
          cases hmine m other hm hopen hsender
          cases hn.symm.trans hm
          simp [Connection.isOpen] at hopen
        have htrue := hreply reply rfl
        cases reply with
        | ok result =>
            cases h
            exact hs.setSender htrue
              (fun m other hm hopen hsender => absurd hsender (hclosed m other hm hopen))
              (by simp)
        | error code =>
            cases h
            apply hs.setSender
            · exact allows_fail hle fun heq => htrue (by simpa using heq)
            · intro m other hm hopen hsender
              exact absurd hsender (hclosed m other hm hopen)
            · intro other m
              exact fail_ne_waiting
      · rename_i heq
        cases heq
        split at h
        · cases h
          apply hs.setSender
          · exact allows_fail hle (by simp)
          · intro m other hm hopen hsender
            simp [Sender.fail, Sender.expects]
          · intro other m
            exact fail_ne_waiting
        · cases h
      · cases h
  | _ => simp [hc] at h

theorem Inv.wake (hs : Inv s) {c : Nat} (h : s.wake c = some t) : Inv t := by
  unfold State.wake at h
  cases hc : s.senders c with
  | delaying deadline =>
      have hzero := hs.allowed c
      have hnone := hs.no_open (c := c) (by simp [hc, Sender.expects])
      rw [hc] at h hzero
      cases h
      exact hs.setSender hzero
        (fun n connection hn hopen hsender =>
          absurd hsender (hnone n connection hn hopen)) (by simp)
  | _ => simp [hc] at h

theorem Inv.submit (hs : Inv s) {c : Nat} (hc : s.senders c = .idle) (deadline : Int) :
    Inv (s.setSender c (.calling deadline)) := by
  have hzero := hs.allowed c
  have hnone := hs.no_open (c := c) (by simp [hc, Sender.expects])
  rw [hc] at hzero
  exact hs.setSender hzero
    (fun n connection hn hopen hsender =>
      absurd hsender (hnone n connection hn hopen)) (by simp)

theorem Inv.setStage (hs : Inv s) {n : Nat} {connection : Connection} {stage : Stage}
    (hn : s.connections n = some connection) (hopen : connection.isOpen = true)
    (hstage : ∀ reply, stage = .answered reply →
      Truthful (s.applied.count connection.sender) reply) :
    Inv (s.setStage n connection stage) where
  allowed := hs.allowed
  opens m other hm hother := by
    by_cases h : m = n
    · subst h
      rw [State.setStage_self] at hm
      cases hm
      exact hs.opens m connection hn hopen
    · rw [State.setStage_other _ _ _ _ h] at hm
      exact hs.opens m other hm hother
  alone m k one other hm hk hone hother heq := by
    by_cases h : m = n
    · by_cases h' : k = n
      · rw [h, h']
      · subst h
        rw [State.setStage_self] at hm
        rw [State.setStage_other _ _ _ _ h'] at hk
        cases hm
        exact hs.alone m k connection other hn hk hopen hother heq
    · by_cases h' : k = n
      · subst h'
        rw [State.setStage_other _ _ _ _ h] at hm
        rw [State.setStage_self] at hk
        cases hk
        exact hs.alone m k one connection hm hn hone hopen heq
      · rw [State.setStage_other _ _ _ _ h] at hm
        rw [State.setStage_other _ _ _ _ h'] at hk
        exact hs.alone m k one other hm hk hone hother heq
  awaited c deadline m hc := by
    obtain ⟨one, hm, hsender, hreply⟩ := hs.awaited c deadline m hc
    by_cases h : m = n
    · subst h
      cases hn.symm.trans hm
      exact ⟨_, State.setStage_self .., hsender, fun reply hanswered =>
        hsender ▸ hstage reply hanswered⟩
    · exact ⟨one, by rwa [State.setStage_other _ _ _ _ h], hsender, hreply⟩
  later m hm := by
    by_cases h : m = n
    · subst h
      rw [hs.later m hm] at hn
      cases hn
    · rw [State.setStage_other _ _ _ _ h]
      exact hs.later m hm

theorem Inv.route (hs : Inv s) {n : Nat} (h : s.route requests n = some t) :
    Inv t := by
  unfold State.route at h
  cases hn : s.connections n with
  | none => simp [hn] at h
  | some connection =>
      simp only [hn] at h
      split at h
      · rename_i hstage _
        have hopen : connection.isOpen = true := by simp [Connection.isOpen, hstage]
        have hzero := (hs.opens n connection hn hopen).1
        have hmove : ∀ stage, (∀ reply, stage = .answered reply →
            ∃ code, reply = .error code) → Inv (s.setStage n connection stage) := by
          intro stage hrefusal
          apply hs.setStage hn hopen
          rintro reply rfl
          obtain ⟨code, rfl⟩ := hrefusal reply rfl
          exact fun _ => hzero
        split at h
        · cases h
        · split at h
          · cases h
            exact hmove _ (by simp)
          · split at h
            · cases h
              exact hmove _ (by simp)
            · split at h
              · cases h
                exact hmove _ (by simp)
              · cases h
                exact hmove _ (by simp)
      · cases h

theorem truthful_applied (thrown : Option Thrown) :
    Truthful 1 (match thrown with
      | none => .ok ()
      | some thrown => .error (classify thrown)) := by
  cases thrown with
  | none => rfl
  | some thrown => cases thrown <;> simp [Truthful, classify]

/-- The one open connection of a request leads to its application. -/
theorem Inv.applies (hs : Inv s) {n : Nat} {connection : Connection} {store : σ}
    {reply : Except ControlErrorCode Unit}
    (hn : s.connections n = some connection) (hopen : connection.isOpen = true)
    (hreply : Truthful 1 reply) :
    Inv { s.setStage n connection (.answered reply) with
      store
      applied := s.applied ++ [connection.sender] } := by
  obtain ⟨hzero, hexpects⟩ := hs.opens n connection hn hopen
  have hself : (s.applied ++ [connection.sender]).count connection.sender = 1 := by
    rw [List.count_append, hzero]
    simp
  have hothers : ∀ {c}, c ≠ connection.sender →
      (s.applied ++ [connection.sender]).count c = s.applied.count c := by
    intro c hne
    simp [List.count_append, Ne.symm hne]
  have hstill : ∀ m other, (s.setStage n connection (.answered reply)).connections m =
      some other → other.isOpen = true → m ≠ n ∧ s.connections m = some other := by
    intro m other hm hother
    by_cases h : m = n
    · subst h
      rw [State.setStage_self] at hm
      cases hm
      simp [Connection.isOpen] at hother
    · rw [State.setStage_other _ _ _ _ h] at hm
      exact ⟨h, hm⟩
  constructor
  · intro c
    by_cases h : c = connection.sender
    · subst h
      change (s.senders connection.sender).allows _
      rw [hself]
      cases hsender : s.senders connection.sender with
      | waiting deadline m => simp [Sender.allows]
      | failed failure =>
          rw [hsender] at hexpects
          cases failure with
          | other => simp [Sender.allows]
          | control code => exact absurd hexpects (by simp [Sender.expects])
      | _ => simp [hsender, Sender.expects] at hexpects
    · change (s.senders c).allows _
      rw [hothers h]
      exact hs.allowed c
  · intro m other hm hother
    obtain ⟨hne, hm⟩ := hstill m other hm hother
    have hsender : other.sender ≠ connection.sender := fun heq =>
      hne (hs.alone m n other connection hm hn hother hopen heq)
    obtain ⟨hcount, hother_expects⟩ := hs.opens m other hm hother
    exact ⟨(hothers hsender).trans hcount, hother_expects⟩
  · intro m k one other hm hk hone hother heq
    exact hs.alone m k one other (hstill m one hm hone).2 (hstill k other hk hother).2
      hone hother heq
  · intro c deadline m hc
    change s.senders c = _ at hc
    obtain ⟨one, hm, hsender, htrue⟩ := hs.awaited c deadline m hc
    by_cases h : m = n
    · subst h
      cases hn.symm.trans hm
      refine ⟨_, State.setStage_self .., hsender, ?_⟩
      rintro _ ⟨⟩
      change Truthful ((s.applied ++ [connection.sender]).count c) reply
      rwa [← hsender, hself]
    · have hne : c ≠ connection.sender := by
        rintro rfl
        rw [hc] at hexpects
        exact h hexpects.symm
      refine ⟨one, ?_, hsender, ?_⟩
      · change (s.setStage n connection (.answered reply)).connections m = _
        rwa [State.setStage_other _ _ _ _ h]
      · change ∀ answer, _ →
          Truthful ((s.applied ++ [connection.sender]).count c) answer
        rwa [hothers hne]
  · intro m hm
    change (s.setStage n connection (.answered reply)).connections m = none
    have hne : m ≠ n := by
      rintro rfl
      rw [hs.later m hm] at hn
      cases hn
    rw [State.setStage_other _ _ _ _ hne]
    exact hs.later m hm

theorem Inv.finish (hs : Inv s) {n : Nat} {aborted : Bool}
    (h : s.finish requests n aborted = some t) : Inv t := by
  unfold State.finish at h
  cases hn : s.connections n with
  | none => simp [hn] at h
  | some connection =>
      simp only [hn] at h
      split at h
      · rename_i hstage _
        have hopen : connection.isOpen = true := by simp [Connection.isOpen, hstage]
        have hzero := (hs.opens n connection hn hopen).1
        have hrefused : ∀ code,
            Inv (s.setStage n connection (.answered (.error code))) := by
          intro code
          apply hs.setStage hn hopen
          rintro _ ⟨⟩
          exact fun _ => hzero
        split at h
        · cases h
        · split at h
          · cases h
            exact hrefused _
          · split at h
            · cases h
              exact hrefused _
            · split at h
              · cases h
                exact hrefused _
              · split at h
                · cases h
                  exact hrefused _
                · cases h
                  exact hs.applies hn hopen (truthful_applied _)
      · cases h

theorem Inv.lost (hs : Inv s) (hsenders : t.senders = s.senders)
    (happlied : t.applied = s.applied) (hopened : t.opened = s.opened)
    (hkept : ∀ n one, s.connections n = some one →
      ∃ other, t.connections n = some other ∧ other.sender = one.sender ∧
        ((∃ reply, other.stage = .answered reply) → other.stage = one.stage))
    (hlost : ∀ n other, t.connections n = some other →
      ∃ one, s.connections n = some one ∧ other.sender = one.sender ∧
        (other.isOpen = true → one.isOpen = true)) : Inv t where
  allowed c := by
    rw [hsenders, happlied]
    exact hs.allowed c
  opens n other hn hopen := by
    obtain ⟨one, hone, hsender, hwas⟩ := hlost n other hn
    rw [hsenders, happlied, hsender]
    exact hs.opens n one hone (hwas hopen)
  alone n m other other' hn hm hopen hopen' heq := by
    obtain ⟨one, hone, hsender, hwas⟩ := hlost n other hn
    obtain ⟨one', hone', hsender', hwas'⟩ := hlost m other' hm
    exact hs.alone n m one one' hone hone' (hwas hopen) (hwas' hopen')
      (hsender.symm.trans (heq.trans hsender'))
  awaited c deadline n hc := by
    rw [hsenders] at hc
    obtain ⟨one, hone, hsender, htrue⟩ := hs.awaited c deadline n hc
    obtain ⟨other, hother, hsame, hstage⟩ := hkept n one hone
    refine ⟨other, hother, hsame.trans hsender, fun reply hreply => ?_⟩
    rw [happlied]
    exact htrue reply ((hstage ⟨reply, hreply⟩).symm.trans hreply)
  later n hn := by
    rw [hopened] at hn
    cases hconnection : t.connections n with
    | none => rfl
    | some other =>
        obtain ⟨one, hone, -⟩ := hlost n other hconnection
        rw [hs.later n hn] at hone
        cases hone

theorem Inv.aside (hs : Inv s) (hsenders : t.senders = s.senders)
    (happlied : t.applied = s.applied) (hopened : t.opened = s.opened)
    (hconnections : t.connections = s.connections) : Inv t :=
  hs.lost hsenders happlied hopened
    (fun n one hn => ⟨one, by rw [hconnections, hn], rfl, fun _ => rfl⟩)
    fun n other hn => ⟨other, by rw [← hconnections, hn], rfl, id⟩

theorem crash_kept (one : Connection) :
    one.crash.sender = one.sender ∧
      ((∃ reply, one.crash.stage = .answered reply) → one.crash.stage = one.stage) ∧
      one.crash.isOpen = false := by
  unfold Connection.crash
  cases hstage : one.stage <;> simp [Connection.isOpen]

theorem Inv.crash (hs : Inv s) {g : Nat} (h : s.crash g = some t) : Inv t := by
  unfold State.crash at h
  split at h
  · cases h
    refine hs.lost ?_ ?_ ?_ ?_ ?_
    · rfl
    · rfl
    · rfl
    · intro n one hn
      refine ⟨if one.server = g then one.crash else one, by simp [hn], ?_⟩
      split
      · exact ⟨(crash_kept one).1, (crash_kept one).2.1⟩
      · exact ⟨rfl, fun _ => rfl⟩
    · intro n other hn
      obtain ⟨one, hone, rfl⟩ := Option.map_eq_some_iff.mp hn
      refine ⟨one, hone, ?_⟩
      split
      · exact ⟨(crash_kept one).1, by simp [(crash_kept one).2.2]⟩
      · exact ⟨rfl, id⟩
  · cases h

theorem Inv.breakOff (hs : Inv s) {n : Nat} (h : s.breakOff n = some t) : Inv t := by
  unfold State.breakOff at h
  split at h
  · rename_i connection hn
    cases h
    refine hs.lost ?_ ?_ ?_ ?_ ?_
    · rfl
    · rfl
    · rfl
    · intro m one hm
      by_cases heq : m = n
      · subst heq
        cases hn.symm.trans hm
        exact ⟨_, Function.update_self .., rfl, fun _ => rfl⟩
      · exact ⟨one, (Function.update_of_ne heq ..).trans hm, rfl, fun _ => rfl⟩
    · intro m other hm
      change Function.update s.connections n _ m = some other at hm
      by_cases heq : m = n
      · subst heq
        rw [Function.update_self] at hm
        cases hm
        exact ⟨connection, hn, rfl, id⟩
      · rw [Function.update_of_ne heq] at hm
        exact ⟨other, hm, rfl, id⟩
  · cases h

theorem Inv.fresh (store : σ) : Inv (State.fresh store) := by
  constructor <;> simp [State.fresh, Sender.allows]

theorem Inv.step (hs : Inv s) {a : Action σ} (h : s.perform requests a = some t) :
    Inv t := by
  cases a with
  | submit c deadline =>
      simp only [State.perform] at h
      split at h
      · rename_i hidle
        cases h
        exact hs.submit hidle deadline
      · cases h
  | call c fault now => exact hs.call h
  | receive c timeout now => exact hs.receive h
  | wake c => exact hs.wake h
  | route n => exact hs.route h
  | finish n aborted => exact hs.finish h
  | clearStaleSocket g fault =>
      simp only [State.perform, State.clearStaleSocket] at h
      split at h
      all_goals cases h
      all_goals apply hs.aside <;> rfl
  | listen g =>
      simp only [State.perform, State.listen] at h
      split at h
      all_goals cases h
      all_goals apply hs.aside <;> rfl
  | publish g endpoint =>
      simp only [State.perform, State.publish] at h
      repeat' split at h
      all_goals cases h
      all_goals apply hs.aside <;> rfl
  | close g =>
      simp only [State.perform, State.close] at h
      repeat' split at h
      all_goals cases h
      all_goals apply hs.aside <;> rfl
  | crash g => exact hs.crash h
  | breakOff n => exact hs.breakOff h
  | write store =>
      cases h
      apply hs.aside <;> rfl

theorem Inv.reachable (h : (dispatchSystem requests).Reachable s) : Inv s := by
  apply System.Reachable.invariant _ _ h
  · rintro _ ⟨store, rfl⟩
    exact Inv.fresh store
  · intro m a m' hm hstep
    exact hm.step hstep

/-! ## Over a whole run -/

theorem perform_senders {a : Action σ} (h : s.perform requests a = some t) :
    t.senders = s.senders ∨ ∃ c sender,
      t.senders = Function.update s.senders c sender ∧
        ∀ failure, s.senders c ≠ .failed failure := by
  cases a with
  | submit c deadline =>
      simp only [State.perform] at h
      split at h
      · rename_i hidle
        cases h
        exact .inr ⟨c, _, rfl, by simp [hidle]⟩
      · cases h
  | call c fault now =>
      simp only [State.perform, State.call] at h
      split at h
      · rename_i hcalling
        have hmoves : ∀ failure, s.senders c ≠ .failed failure := by simp [hcalling]
        repeat' split at h
        all_goals cases h
        all_goals exact .inr ⟨c, _, rfl, hmoves⟩
      · cases h
  | receive c timeout now =>
      simp only [State.perform, State.receive] at h
      split at h
      · rename_i hwaiting
        have hmoves : ∀ failure, s.senders c ≠ .failed failure := by simp [hwaiting]
        repeat' split at h
        all_goals cases h
        all_goals exact .inr ⟨c, _, rfl, hmoves⟩
      · cases h
  | wake c =>
      simp only [State.perform, State.wake] at h
      split at h
      · rename_i hdelaying
        cases h
        exact .inr ⟨c, _, rfl, by simp [hdelaying]⟩
      · cases h
  | write store =>
      cases h
      exact .inl rfl
  | _ =>
      simp only [State.perform, State.route, State.finish, State.clearStaleSocket, State.listen,
        State.publish, State.close, State.crash, State.breakOff] at h
      repeat' split at h
      all_goals cases h
      all_goals exact .inl rfl

theorem failed_run {c : Nat} {failure : Failure} {as : List (Action σ)}
    (hc : s.senders c = .failed failure)
    (h : (dispatchSystem requests).run s as = some t) :
    t.senders c = .failed failure := by
  induction as generalizing s with
  | nil =>
      cases h
      exact hc
  | cons a rest ih =>
      obtain ⟨m, hstep, hrest⟩ := System.run_cons _ h
      apply ih _ hrest
      rcases perform_senders hstep with hsame | ⟨d, sender, hmoved, hlive⟩
      · rw [hsame, hc]
      · have hne : c ≠ d := by
          rintro rfl
          exact hlive failure hc
        rw [hmoved, Function.update_of_ne hne, hc]

/--
Whatever becomes of the servers and of the connections, a request is applied at
most once; exactly once when its sender has the result, and not at all, neither
before nor later, when its sender was told that the coordinator is unavailable.
-/
theorem lifecycle_at_most_once (h : (dispatchSystem requests).Reachable s) (c : Nat) :
    s.applied.count c ≤ 1 ∧
      (s.senders c = .returned → s.applied.count c = 1) ∧
      (s.senders c = .failed (.control .unavailable) →
        s.applied.count c = 0 ∧
          ∀ as t, (dispatchSystem requests).run s as = some t →
            t.applied.count c = 0) := by
  have hunavailable : ∀ {m}, (dispatchSystem requests).Reachable m →
      m.senders c = .failed (.control .unavailable) → m.applied.count c = 0 := by
    intro m hm hc
    have hallowed := (Inv.reachable hm).allowed c
    rw [hc] at hallowed
    exact hallowed.2 rfl
  have hallowed := (Inv.reachable h).allowed c
  refine ⟨hallowed.le_one, fun hc => ?_, fun hc => ⟨hunavailable h hc, ?_⟩⟩
  · rwa [hc] at hallowed
  · intro as t hrun
    exact hunavailable (h.run hrun) (failed_run hc hrun)

/-! ## A coordinator that is restarted -/

def acceptingRequests : Requests (List Nat) where
  supported _ := true
  parse _ := .ok ()
  authorize _ _ := .ok ()
  apply store c := (none, store ++ [c])

/--
The first attempt of request 7 finds the coordinator shutting down; the second
reaches the next one.
-/
def restartedActions : List (Action (List Nat)) :=
  [.clearStaleSocket 0 false, .listen 0, .publish 0 false, .publish 0 true,
    .submit 7 100, .call 7 none 0, .close 0, .route 0, .receive 7 false 1, .crash 0,
    .wake 7, .clearStaleSocket 1 false, .listen 1, .publish 1 false, .publish 1 true,
    .call 7 none 2, .route 1, .finish 1 false, .receive 7 false 3]

theorem lifecycle_at_most_once_restarted :
    ∃ s, (dispatchSystem acceptingRequests).run (.fresh []) restartedActions =
        some s ∧
      s.senders 7 = .returned ∧ s.applied.count 7 = 1 := by
  obtain ⟨s, hrun, hreturned⟩ :=
    (dispatchSystem acceptingRequests).exists_run_of_map
      (s := .fresh []) (f := fun s => s.senders 7) (b := .returned)
      (show (((dispatchSystem acceptingRequests).run (.fresh []) restartedActions).map
        fun s => s.senders 7) = some .returned by decide)
  have hreachable : (dispatchSystem acceptingRequests).Reachable s :=
    System.Reachable.run (System.Reachable.initial ⟨_, rfl⟩) hrun
  exact ⟨s, hrun, hreturned, (lifecycle_at_most_once hreachable 7).2.1 hreturned⟩

end OrcState.Control.Dispatch
