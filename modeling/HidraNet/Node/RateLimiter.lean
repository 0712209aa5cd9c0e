import HidraNet.Lib.Runs
import HidraNet.Lib.Window

/-!
# The rate limiter

Sliding windows, by source address and overall, for lasting admissions and for sessions.  A session takes a place in a
window of all the node's sessions, and it can be given back; how often an address asked is counted apart, and is not.

Whatever the calls and however their times, no window of ten minutes sees more than its limit (`limiter_run`), also
when the maps are tidied of addresses gone quiet.
-/

namespace HidraNet.Node

open Maps Runs Window

/-- Times are in nanoseconds. -/
def SECOND : Nat := 1000000000
def PER_IP : Nat := 3
def PER_IP_WINDOW : Nat := 600 * SECOND
def GLOBAL : Nat := 120
def GLOBAL_WINDOW : Nat := 600 * SECOND
def SESSION_GLOBAL : Nat := 600
def SESSION_PER_IP : Nat := 30
def MAX_BITS : Nat := 26

structure RateLimiter (Ip Key : Type) where
  perIp : Map Ip (List Nat)
  global : List Nat
  /-- Session admissions in the window, oldest first, by key. -/
  sessions : List (Nat × Key)
  sessionKeys : Finset Key
  sessionPerIp : Map Ip (List Nat)
deriving DecidableEq

/-- What a session admission that is allowed did to the window. -/
inductive Recorded where
  | new
  | again
deriving DecidableEq

inductive SessionRefusal where
  | node
  | address
deriving DecidableEq

variable {Ip Key : Type} [DecidableEq Ip] [DecidableEq Key]

/-- The bits of work added as `used` nears `ceiling`. -/
def extraBits (used ceiling : Nat) : Nat :=
  if used * 2 < ceiling then 0 else if used * 4 < ceiling * 3 then 2 else if used * 8 < ceiling * 7 then 4 else 6

def room (q : List Nat) (now window limit : Nat) : List Nat × Bool :=
  let q := slide window now q
  (q, q.length < limit)

def tidy (m : Map Ip (List Nat)) (now window : Nat) : Map Ip (List Nat) :=
  if m.size > 10000 then m.retain fun _ q => q.getLast?.any fun t => now - t ≤ window else m

def slideSessions (now : Nat) : List (Nat × Key) → Finset Key → List (Nat × Key) × Finset Key
  | [], keys => ([], keys)
  | (t, key) :: rest, keys =>
    if now - t ≤ GLOBAL_WINDOW then ((t, key) :: rest, keys) else slideSessions now rest (keys.erase key)

namespace RateLimiter

def empty : RateLimiter Ip Key := ⟨.empty, [], [], ∅, .empty⟩

/-- Whether one more lasting admission from `ip` is allowed now; records it if so. -/
def allow (r : RateLimiter Ip Key) (ip : Ip) (now : Nat) : RateLimiter Ip Key × Bool :=
  match room r.global now GLOBAL_WINDOW GLOBAL with
  | (global, false) => ({ r with global }, false)
  | (global, true) =>
    match room ((r.perIp.get? ip).getD []) now PER_IP_WINDOW PER_IP with
    | (q, false) => ({ r with global, perIp := r.perIp.set ip q }, false)
    | (q, true) =>
      ({ r with global := global ++ [now], perIp := tidy (r.perIp.set ip (q ++ [now])) now PER_IP_WINDOW }, true)

def slideAll (r : RateLimiter Ip Key) (now : Nat) : RateLimiter Ip Key :=
  let (sessions, sessionKeys) := slideSessions now r.sessions r.sessionKeys
  { r with sessions, sessionKeys }

def sessionBits (r : RateLimiter Ip Key) (base now held maxClients : Nat) : RateLimiter Ip Key × Nat :=
  let r := r.slideAll now
  let extra := max (extraBits r.sessions.length SESSION_GLOBAL) (extraBits held maxClients)
  (r, min (min (base + extra) 255) (max MAX_BITS base))

/-- Whether a session admission for `key` from `addr` would be allowed now. -/
def sessionRoom (r : RateLimiter Ip Key) (key : Key) (addr : Option Ip) (now : Nat) :
    RateLimiter Ip Key × Except SessionRefusal Unit :=
  let r := r.slideAll now
  if key ∈ r.sessionKeys then (r, .ok ())
  else if r.sessions.length ≥ SESSION_GLOBAL then (r, .error .node)
  else
    match addr with
    | none => (r, .ok ())
    | some ip =>
      match r.sessionPerIp.get? ip with
      | none => (r, .ok ())
      | some q =>
        match room q now GLOBAL_WINDOW SESSION_PER_IP with
        | (q, true) => ({ r with sessionPerIp := r.sessionPerIp.set ip q }, .ok ())
        | (q, false) => ({ r with sessionPerIp := r.sessionPerIp.set ip q }, .error .address)

/-- Whether a session admission for `key` from `addr` is allowed now; records it if so. -/
def allowSession (r : RateLimiter Ip Key) (key : Key) (addr : Option Ip) (now : Nat) :
    RateLimiter Ip Key × Except SessionRefusal Recorded :=
  match r.sessionRoom key addr now with
  | (r, .error e) => (r, .error e)
  | (r, .ok _) =>
    if key ∈ r.sessionKeys then (r, .ok .again)
    else
      let sessionPerIp := match addr with
        | some ip => tidy (r.sessionPerIp.set ip (((r.sessionPerIp.get? ip).getD []) ++ [now])) now GLOBAL_WINDOW
        | none => r.sessionPerIp
      ({ r with sessionPerIp, sessions := r.sessions ++ [(now, key)], sessionKeys := insert key r.sessionKeys }, .ok .new)

def forgetSession (r : RateLimiter Ip Key) (key : Key) : RateLimiter Ip Key :=
  if key ∈ r.sessionKeys then
    { r with sessionKeys := r.sessionKeys.erase key, sessions := r.sessions.filter (·.2 ≠ key) }
  else r

end RateLimiter

/-! ### Calls, and what they allowed -/

structure Limiting (Ip Key : Type) where
  limiter : RateLimiter Ip Key
  clock : Nat
  /-- The lasting admissions allowed, with where they came from and when. -/
  allowed : List (Ip × Nat)
  /-- The sessions that took a place, of the addresses that are counted. -/
  news : List (Ip × Nat)
deriving DecidableEq

inductive LimitStep (Ip Key : Type) where
  | allow (ip : Ip) (now : Nat)
  | sessionRoom (key : Key) (addr : Option Ip) (now : Nat)
  | sessionBits (base now held maxClients : Nat)
  | allowSession (key : Key) (addr : Option Ip) (now : Nat)
  | forgetSession (key : Key)
deriving DecidableEq

namespace Limiting

def start (clock : Nat) : Limiting Ip Key := ⟨.empty, clock, [], []⟩

def step (s : Limiting Ip Key) : LimitStep Ip Key → Limiting Ip Key
  | .allow ip now =>
    let (limiter, ok) := s.limiter.allow ip now
    { s with limiter, clock := now, allowed := if ok then s.allowed ++ [(ip, now)] else s.allowed }
  | .sessionRoom key addr now => { s with limiter := (s.limiter.sessionRoom key addr now).1, clock := now }
  | .sessionBits base now held maxClients =>
    { s with limiter := (s.limiter.sessionBits base now held maxClients).1, clock := now }
  | .allowSession key addr now =>
    let (limiter, r) := s.limiter.allowSession key addr now
    let news := match addr, r with
      | some ip, .ok .new => s.news ++ [(ip, now)]
      | _, _ => s.news
    { s with limiter, clock := now, news }
  | .forgetSession key => { s with limiter := s.limiter.forgetSession key }

/-- The clock does not go back. -/
def Allowed (s : Limiting Ip Key) : LimitStep Ip Key → Prop
  | .allow _ now => s.clock ≤ now
  | .sessionRoom _ _ now => s.clock ≤ now
  | .sessionBits _ now _ _ => s.clock ≤ now
  | .allowSession _ _ now => s.clock ≤ now
  | .forgetSession _ => True

instance (s : Limiting Ip Key) (e : LimitStep Ip Key) : Decidable (s.Allowed e) := by
  cases e <;> unfold Allowed <;> infer_instance

end Limiting

/-! ### The windows of lasting admissions -/

theorem eachWindowed_tidy {W limit now : Nat} {past : List (Ip × Nat)} {m : Map Ip (List Nat)}
    (h : EachWindowed W limit past m now) : EachWindowed W limit past (tidy m now W) now := by
  unfold tidy
  split
  · refine h.retain fun ip q hquiet u hu => ?_
    rw [Option.mem_def] at hu
    rw [hu] at hquiet
    have hout : W + u < now := by simpa using hquiet
    omega
  · exact h

/-! ### The window of sessions -/

/-- The keys of the window are its entries' keys, each once, and no more than its limit. -/
structure SessionsOk (r : RateLimiter Ip Key) : Prop where
  nodup : (r.sessions.map Prod.snd).Nodup
  keys : ∀ k, k ∈ r.sessionKeys ↔ k ∈ r.sessions.map Prod.snd
  room : r.sessions.length ≤ SESSION_GLOBAL

theorem slideSessions_spec (now : Nat) : ∀ (sessions : List (Nat × Key)) (keys : Finset Key),
    (sessions.map Prod.snd).Nodup → (∀ k, k ∈ keys ↔ k ∈ sessions.map Prod.snd) →
      (slideSessions now sessions keys).1.Sublist sessions ∧
        (∀ k, k ∈ (slideSessions now sessions keys).2 ↔ k ∈ (slideSessions now sessions keys).1.map Prod.snd) ∧
        ∀ e ∈ sessions, now - e.1 ≤ GLOBAL_WINDOW → e ∈ (slideSessions now sessions keys).1
  | [], keys, _, hkeys => ⟨List.Sublist.refl _, hkeys, fun e he => by cases he⟩
  | (t, key) :: rest, keys, hnodup, hkeys => by
    unfold slideSessions
    split
    · exact ⟨List.Sublist.refl _, hkeys, fun _ he _ => he⟩
    · rename_i hout
      rw [List.map_cons, List.nodup_cons] at hnodup
      have hrest : ∀ k, k ∈ keys.erase key ↔ k ∈ rest.map Prod.snd := by
        intro k
        rw [Finset.mem_erase, hkeys, List.map_cons, List.mem_cons]
        constructor
        · rintro ⟨hne, h | h⟩
          · exact absurd h hne
          · exact h
        · intro h
          exact ⟨fun heq => hnodup.1 (heq ▸ h), Or.inr h⟩
      obtain ⟨hsub, hkeys', hkept⟩ := slideSessions_spec now rest (keys.erase key) hnodup.2 hrest
      refine ⟨hsub.trans (List.sublist_cons_self _ _), hkeys', fun e he hin => ?_⟩
      rcases List.mem_cons.1 he with rfl | he
      · exact absurd hin hout
      · exact hkept e he hin

namespace RateLimiter

variable {r : RateLimiter Ip Key} {key : Key} {addr : Option Ip} {now : Nat}

omit [DecidableEq Ip] in
theorem sessionsOk_slideAll (h : SessionsOk r) (now : Nat) : SessionsOk (r.slideAll now) := by
  obtain ⟨hsub, hkeys, -⟩ := slideSessions_spec now r.sessions r.sessionKeys h.nodup h.keys
  exact ⟨h.nodup.sublist (hsub.map _), hkeys, hsub.length_le.trans h.room⟩

omit [DecidableEq Ip] in
theorem mem_slideAll (h : SessionsOk r) {e : Nat × Key} (he : e ∈ r.sessions) (hin : now ≤ e.1 + GLOBAL_WINDOW) :
    e.2 ∈ (r.slideAll now).sessionKeys := by
  obtain ⟨-, hkeys, hkept⟩ := slideSessions_spec now r.sessions r.sessionKeys h.nodup h.keys
  exact (hkeys e.2).2 (List.mem_map_of_mem (hkept e he (by omega)))

theorem sessionRoom_cases (r : RateLimiter Ip Key) (key : Key) (addr : Option Ip) (now : Nat) :
    ∃ sessionPerIp, (r.sessionRoom key addr now).1 = { r.slideAll now with sessionPerIp } ∧
      (sessionPerIp = r.sessionPerIp ∨
        ∃ ip, sessionPerIp = r.sessionPerIp.set ip (slide GLOBAL_WINDOW now ((r.sessionPerIp.get? ip).getD []))) ∧
      ((r.sessionRoom key addr now).2 = .ok () → key ∈ (r.slideAll now).sessionKeys ∨
        ((r.slideAll now).sessions.length < SESSION_GLOBAL ∧
          ∀ ip ∈ addr, ((sessionPerIp.get? ip).getD []).length < SESSION_PER_IP)) := by
  unfold sessionRoom
  dsimp only
  split
  · rename_i hkey
    exact ⟨r.sessionPerIp, rfl, Or.inl rfl, fun _ => Or.inl hkey⟩
  · split
    · exact ⟨r.sessionPerIp, rfl, Or.inl rfl, fun h => by cases h⟩
    · rename_i hroom
      have hroom' : (r.slideAll now).sessions.length < SESSION_GLOBAL := not_le.1 hroom
      cases addr with
      | none => exact ⟨r.sessionPerIp, rfl, Or.inl rfl, fun _ => Or.inr ⟨hroom', fun ip hip => by cases hip⟩⟩
      | some ip =>
        have hsame : (r.slideAll now).sessionPerIp = r.sessionPerIp := rfl
        dsimp only
        rw [hsame]
        cases hq : r.sessionPerIp.get? ip with
        | none =>
          refine ⟨r.sessionPerIp, rfl, Or.inl rfl, fun _ => Or.inr ⟨hroom', fun ip' hip => ?_⟩⟩
          cases hip
          rw [hq]
          decide
        | some q =>
          have hslide : r.sessionPerIp.set ip (slide GLOBAL_WINDOW now q) =
              r.sessionPerIp.set ip (slide GLOBAL_WINDOW now ((r.sessionPerIp.get? ip).getD [])) := by
            rw [hq, Option.getD_some]
          unfold room
          dsimp only
          by_cases hfull : (slide GLOBAL_WINDOW now q).length < SESSION_PER_IP
          · rw [decide_eq_true hfull]
            refine ⟨_, rfl, Or.inr ⟨ip, hslide⟩, fun _ => Or.inr ⟨hroom', fun ip' hip => ?_⟩⟩
            cases hip
            rw [Map.get?_set_self]
            exact hfull
          · rw [decide_eq_false hfull]
            exact ⟨_, rfl, Or.inr ⟨ip, hslide⟩, fun h => by cases h⟩

/-- A key is refused, let in again within its window, or written down as a new one. -/
theorem allowSession_cases (r : RateLimiter Ip Key) (key : Key) (addr : Option Ip) (now : Nat) :
    ((∃ e, (r.allowSession key addr now).2 = .error e) ∧
      (r.allowSession key addr now).1 = (r.sessionRoom key addr now).1) ∨
    (key ∈ (r.slideAll now).sessionKeys ∧ (r.allowSession key addr now).2 = .ok .again ∧
      (r.allowSession key addr now).1 = (r.sessionRoom key addr now).1) ∨
    ((r.sessionRoom key addr now).2 = .ok () ∧ key ∉ (r.slideAll now).sessionKeys ∧
      (r.allowSession key addr now).2 = .ok .new ∧
      ∃ sessionPerIp, (r.allowSession key addr now).1 =
          { (r.sessionRoom key addr now).1 with
            sessionPerIp
            sessions := (r.slideAll now).sessions ++ [(now, key)]
            sessionKeys := insert key (r.slideAll now).sessionKeys } ∧
        ((addr = none ∧ sessionPerIp = (r.sessionRoom key addr now).1.sessionPerIp) ∨
          ∃ ip, addr = some ip ∧ sessionPerIp = tidy ((r.sessionRoom key addr now).1.sessionPerIp.set ip
            ((((r.sessionRoom key addr now).1.sessionPerIp.get? ip).getD []) ++ [now])) now GLOBAL_WINDOW)) := by
  obtain ⟨sessionPerIp, hr, -, -⟩ := r.sessionRoom_cases key addr now
  unfold allowSession
  cases hroom : r.sessionRoom key addr now with
  | mk r' res =>
    rw [hroom] at hr
    dsimp only at hr
    subst hr
    cases res with
    | error e => exact Or.inl ⟨⟨e, rfl⟩, rfl⟩
    | ok u =>
      right
      dsimp only
      by_cases hkey : key ∈ (r.slideAll now).sessionKeys
      · rw [if_pos hkey]
        exact Or.inl ⟨hkey, rfl, rfl⟩
      · rw [if_neg hkey]
        refine Or.inr ⟨rfl, hkey, rfl, ?_⟩
        cases addr with
        | none => exact ⟨sessionPerIp, rfl, Or.inl ⟨rfl, rfl⟩⟩
        | some ip => exact ⟨_, rfl, Or.inr ⟨ip, rfl, rfl⟩⟩

theorem sessionsOk_sessionRoom (h : SessionsOk r) (key : Key) (addr : Option Ip) (now : Nat) :
    SessionsOk (r.sessionRoom key addr now).1 := by
  obtain ⟨sessionPerIp, hr, -, -⟩ := r.sessionRoom_cases key addr now
  rw [hr]
  have hok := sessionsOk_slideAll h now
  exact ⟨hok.nodup, hok.keys, hok.room⟩

theorem sessionsOk_allowSession (h : SessionsOk r) (key : Key) (addr : Option Ip) (now : Nat) :
    SessionsOk (r.allowSession key addr now).1 := by
  have hroom := sessionsOk_sessionRoom h key addr now
  have hwindow := sessionsOk_slideAll h now
  rcases r.allowSession_cases key addr now with ⟨-, hr⟩ | ⟨-, -, hr⟩ | ⟨hok, hnew, -, sessionPerIp, hr, -⟩ <;> rw [hr]
  · exact hroom
  · exact hroom
  · obtain ⟨_, -, -, hspace⟩ := r.sessionRoom_cases key addr now
    refine ⟨?_, fun k => ?_, ?_⟩
    · rw [List.map_append, List.map_singleton, List.nodup_append]
      refine ⟨hwindow.nodup, List.nodup_singleton _, fun k hk k' hk' => ?_⟩
      rw [List.mem_singleton.1 hk']
      rintro rfl
      exact hnew ((hwindow.keys k).2 hk)
    · simp only [Finset.mem_insert, hwindow.keys, List.map_append, List.map_singleton, List.mem_append,
        List.mem_singleton]
      exact or_comm
    · rw [List.length_append, List.length_singleton]
      exact ((hspace hok).resolve_left hnew).1

omit [DecidableEq Ip] in
theorem sessionsOk_forgetSession (h : SessionsOk r) (key : Key) : SessionsOk (r.forgetSession key) := by
  unfold forgetSession
  split
  · refine ⟨?_, fun k => ?_, ?_⟩
    · exact h.nodup.sublist (List.filter_sublist.map _)
    · simp only [Finset.mem_erase, h.keys, List.mem_map, List.mem_filter]
      constructor
      · rintro ⟨hne, e, he, rfl⟩
        exact ⟨e, ⟨he, by simpa using hne⟩, rfl⟩
      · rintro ⟨e, ⟨he, hne⟩, rfl⟩
        exact ⟨by simpa using hne, e, he, rfl⟩
    · exact (List.length_filter_le ..).trans h.room
  · exact h

end RateLimiter

/-! ### Over a run -/

structure LimitInv (s : Limiting Ip Key) : Prop where
  global : Windowed GLOBAL_WINDOW GLOBAL (s.allowed.map Prod.snd) s.limiter.global s.clock
  perIp : EachWindowed PER_IP_WINDOW PER_IP s.allowed s.limiter.perIp s.clock
  sessions : SessionsOk s.limiter
  sessionPerIp : EachWindowed GLOBAL_WINDOW SESSION_PER_IP s.news s.limiter.sessionPerIp s.clock

variable {s : Limiting Ip Key} {now : Nat} {ip : Ip}

omit [DecidableEq Key] in
private theorem limitInv_start (clock : Nat) : LimitInv (Limiting.start clock : Limiting Ip Key) :=
  ⟨windowed_nil .., fun _ => windowed_nil .., ⟨List.nodup_nil, fun _ => by simp [Limiting.start, RateLimiter.empty],
    Nat.zero_le _⟩, fun _ => windowed_nil ..⟩

private theorem limitInv_allow (h : LimitInv s) (ip : Ip) (hclock : s.clock ≤ now) :
    LimitInv (s.step (.allow ip now)) := by
  have hglobal := h.global.slide hclock
  have hperIp := h.perIp.slide hclock ip
  have hsessions := h.sessionPerIp.later hclock
  unfold Limiting.step RateLimiter.allow room
  dsimp only
  by_cases hroom : (slide GLOBAL_WINDOW now s.limiter.global).length < GLOBAL
  · rw [decide_eq_true hroom]
    dsimp only
    by_cases hfull : (slide PER_IP_WINDOW now ((s.limiter.perIp.get? ip).getD [])).length < PER_IP
    · rw [decide_eq_true hfull]
      refine ⟨?_, ?_, ⟨h.sessions.nodup, h.sessions.keys, h.sessions.room⟩, hsessions⟩
      · simp only [if_true, List.map_append, List.map_singleton]
        exact hglobal.push hroom
      · exact eachWindowed_tidy ((h.perIp.later hclock).push ((h.perIp ip).slide hclock) hfull)
    · rw [decide_eq_false hfull]
      exact ⟨hglobal, hperIp, ⟨h.sessions.nodup, h.sessions.keys, h.sessions.room⟩, hsessions⟩
  · rw [decide_eq_false hroom]
    exact ⟨hglobal, h.perIp.later hclock, ⟨h.sessions.nodup, h.sessions.keys, h.sessions.room⟩, hsessions⟩

omit [DecidableEq Key] in
private theorem sessionPerIp_later (h : LimitInv s) (hclock : s.clock ≤ now) {sessionPerIp : Map Ip (List Nat)}
    (hcases : sessionPerIp = s.limiter.sessionPerIp ∨ ∃ ip, sessionPerIp = s.limiter.sessionPerIp.set ip
      (slide GLOBAL_WINDOW now ((s.limiter.sessionPerIp.get? ip).getD []))) :
    EachWindowed GLOBAL_WINDOW SESSION_PER_IP s.news sessionPerIp now := by
  rcases hcases with rfl | ⟨ip, rfl⟩
  · exact h.sessionPerIp.later hclock
  · exact h.sessionPerIp.slide hclock ip

private theorem limitInv_sessionRoom (h : LimitInv s) (key : Key) (addr : Option Ip) (hclock : s.clock ≤ now) :
    LimitInv { s with limiter := (s.limiter.sessionRoom key addr now).1, clock := now } := by
  have hok := RateLimiter.sessionsOk_sessionRoom h.sessions key addr now
  obtain ⟨sessionPerIp, hr, hcases, -⟩ := s.limiter.sessionRoom_cases key addr now
  rw [hr] at hok ⊢
  exact ⟨h.global.later hclock, h.perIp.later hclock, hok, sessionPerIp_later h hclock hcases⟩

private theorem limitInv_allowSession (h : LimitInv s) (key : Key) (addr : Option Ip) (hclock : s.clock ≤ now) :
    LimitInv (s.step (.allowSession key addr now)) := by
  have hroom := limitInv_sessionRoom h key addr hclock
  have hsessions := RateLimiter.sessionsOk_allowSession h.sessions key addr now
  unfold Limiting.step
  rcases s.limiter.allowSession_cases key addr now with ⟨⟨e, hres⟩, hr⟩ | ⟨-, hres, hr⟩ |
    ⟨hok, hnew, hres, sessionPerIp, hr, hcounted⟩ <;> dsimp only <;> rw [hr, hres]
  · cases addr <;> exact hroom
  · cases addr <;> exact hroom
  · obtain ⟨slid, hslid, hcases, hspace⟩ := s.limiter.sessionRoom_cases key addr now
    have haddr := ((hspace hok).resolve_left hnew).2
    have heach := sessionPerIp_later h hclock hcases
    rw [hr, hslid] at hsessions
    rw [hslid] at hcounted hroom ⊢
    refine ⟨hroom.global, hroom.perIp, hsessions, ?_⟩
    rcases hcounted with ⟨rfl, rfl⟩ | ⟨ip, rfl, rfl⟩
    · exact heach
    · exact eachWindowed_tidy (heach.push (heach ip) (haddr ip rfl))

private theorem limitInv_forget (h : LimitInv s) (key : Key) : LimitInv (s.step (.forgetSession key)) := by
  have hok := RateLimiter.sessionsOk_forgetSession h.sessions key
  unfold Limiting.step
  unfold RateLimiter.forgetSession at hok ⊢
  dsimp only
  split
  · rename_i hkey
    rw [if_pos hkey] at hok
    exact ⟨h.global, h.perIp, hok, h.sessionPerIp⟩
  · exact h

private theorem limitInv_step (s : Limiting Ip Key) (e : LimitStep Ip Key) (h : LimitInv s) (hok : s.Allowed e) :
    LimitInv (s.step e) := by
  cases e with
  | allow ip now => exact limitInv_allow h ip hok
  | sessionRoom key addr now => exact limitInv_sessionRoom h key addr hok
  | sessionBits base now held maxClients =>
    have hwindow := RateLimiter.sessionsOk_slideAll h.sessions now
    exact ⟨h.global.later hok, h.perIp.later hok, ⟨hwindow.nodup, hwindow.keys, hwindow.room⟩,
      h.sessionPerIp.later hok⟩
  | allowSession key addr now => exact limitInv_allowSession h key addr hok
  | forgetSession key => exact limitInv_forget h key

/-- After any calls, at times that do not go back: the keys of the session window are its entries' keys, each once, and
no more than its limit; and in no window of ten minutes, closed at both ends, did an address take more than its share of
session places, or an address or all of them more than theirs of lasting admissions. -/
theorem limiter_run (clock : Nat) (es : List (LimitStep Ip Key))
    (h : Along Limiting.step Limiting.Allowed (Limiting.start clock) es) :
    let s := run Limiting.step (Limiting.start clock) es
    SessionsOk s.limiter ∧
      (∀ ip a, (inWindow (600 * SECOND) a (timesOf ip s.news)).length ≤ SESSION_PER_IP) ∧
      (∀ ip a, (inWindow (600 * SECOND) a (timesOf ip s.allowed)).length ≤ PER_IP) ∧
      ∀ a, (inWindow (600 * SECOND) a (s.allowed.map Prod.snd)).length ≤ GLOBAL := by
  intro s
  have hinv : LimitInv s := run_invariant (P := LimitInv) limitInv_step h (limitInv_start clock)
  exact ⟨hinv.sessions, fun ip a => (hinv.sessionPerIp ip).bounded a, fun ip a => (hinv.perIp ip).bounded a,
    fun a => hinv.global.bounded a⟩

/-- A fourth lasting admission of one address in ten minutes is refused, and one a nanosecond later is not. -/
theorem limiter_fourth :
    let s : Limiting Nat Nat := run Limiting.step (Limiting.start 0) [.allow 1 0, .allow 1 0, .allow 1 5, .allow 1
      (600 * SECOND), .allow 1 (600 * SECOND + 1), .allowSession 7 (some 1) (600 * SECOND + 2)]
    s.allowed = [(1, 0), (1, 0), (1, 5), (1, 600 * SECOND + 1)] ∧ SessionsOk s.limiter :=
  ⟨by decide, (limiter_run 0 _ (by decide)).1⟩

end HidraNet.Node
