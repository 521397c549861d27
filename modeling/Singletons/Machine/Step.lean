import Singletons.Machine.Thread

/-
The steps of a thread. Every look at a slot without the mutex, every taking of the mutex for a
stretch that may call back, every write of a slot and every reply is a step of its own. A guarded
request that calls nobody back is one step, which waits while another thread holds the mutex. A
panic passes every frame, and each frame undoes what it began.
-/

namespace Singletons

variable {ω : Type}

namespace Shared

/-- What threads share, once `events` are observed. -/
def report (s : Shared ω) (h : Host ω) (events : List Event) : Shared ω :=
  { s with world := h.observeAll events s.world }

def withCache (s : Shared ω) (c : Cache) : Shared ω :=
  { s with registry := { s.registry with cache := c } }

end Shared

/-- The outcome of a step that was taken: what threads share, what the thread does next, and its
frames. -/
abbrev Taken (ω : Type) := Shared ω × Thread ω

/-- A reply for what a request came to. -/
def Reply.ofExcept : Except Failure Answer → Reply
  | .ok a => .ok a
  | .error f => .failed f

namespace Thread

def goto (p : Point) (frames : List (Frame ω)) : Thread ω := ⟨.point p, frames⟩

def answer (a : Answer) (frames : List (Frame ω)) : Thread ω := ⟨.reply (.ok a), frames⟩

def fail (f : Failure) (frames : List (Frame ω)) : Thread ω := ⟨.reply (.failed f), frames⟩

def call (h : Host ω) (callback : Callback) (frames : List (Frame ω)) : Thread ω :=
  ⟨.program (h.program callback .plain), frames⟩

/-! ## Programs -/

def stepProgram (s : Shared ω) (frames : List (Frame ω)) : Program ω → Taken ω
  | .finish r => (s, ⟨.reply r, frames⟩)
  | .request r next => (s, goto (.start r) (.caller next :: frames))
  | .access f next => ({ s with world := f s.world }, ⟨.program (next s.world), frames⟩)

/-! ## Requests -/

/-- The first step of a request. -/
def stepStart (h : Host ω) (id : ThreadId) (s : Shared ω) (frames : List (Frame ω)) :
    Request → Option (Taken ω)
  | .query q =>
    if q.isGuarded && !s.mutex.admits id then none
    else some (s, answer (q.answer s.registry) frames)
  | .change c =>
    if c.isGuarded && !s.mutex.admits id then none
    else
      let e := c.apply s.registry
      some ({ s with registry := e.registry }.report h e.events, ⟨.reply (.ofExcept e.outcome), frames⟩)
  | .get n early => some (s, goto (.glance (s.registry.canonical n) early) frames)
  | .getExact k early => some (s, goto (.glance k early) frames)
  | .getTyped n t => some (s, goto (.glance (s.registry.canonical n) true) (.typed n t :: frames))
  | .getOrCreate n create => some (s, goto (.await (.create (s.registry.canonical n) create)) frames)
  | .produced n shared hooked =>
    -- the marks are no part of the name that the producer is registered under
    let c := s.registry.canonical n.unmarked
    match s.registry.cache.complete? c with
    | some (some i) =>
      match i.asProducer c with
      | .error f => some (s, fail f frames)
      | .ok p =>
        if n.asksForProducer then some (s, answer (.value (some i)) frames)
        else some (s, goto (.produce p c shared hooked) frames)
    | _ => some (s, fail (.notFound (.producer c)) frames)
  | .yielded p n shared hooked => some (s, goto (.produce p n shared hooked) frames)
  | .destroy n => some (s, goto (.agenda [.destroy n]) frames)
  | .destroyAll =>
    if s.mutex.admits id then
      some (s.withCache (s.registry.cache.setInDestruction true), goto .gather frames)
    else none
  | .shutDown =>
    if s.registry.shutDown then some (s.report h [.alreadyShutDown], answer .done frames)
    else
      some ({ s with registry := { s.registry with shutDown := true } }.report h [.shuttingDown],
        goto (.start .destroyAll) frames)
  | .synchronized body => some (s, goto (.await (.body body)) frames)

/-- A step under the mutex. -/
def stepInside (h : Host ω) (s : Shared ω) (frames : List (Frame ω)) : Section → Taken ω
  | .look n early =>
    match s.registry.cache.slots.get? n with
    | some (.complete v) => (s, answer (.found (some v)) frames)
    | some (.inCreation (.exposed v)) => (s, answer (.found (some v)) frames)
    | some (.inCreation (.pending producer)) =>
      if early then (s, call h producer (.exposing n producer :: frames))
      else (s, answer (.found none) frames)
    | _ => (s, answer (.found none) frames)
  | .create n create =>
    match s.registry.cache.complete? n with
    | some v => (s, answer (.value v) frames)
    | none =>
      -- a closed registry refuses before anything is marked
      if s.registry.cache.inDestruction then (s, fail (.creationNotAllowed n) frames)
      else
        match s.registry.cache.openWindow n with
        | .error f => (s.report h [.creating n], fail f frames)
        | .ok (w, cache) =>
          ((s.withCache cache).report h [.creating n], call h create (.creating w create :: frames))
  | .produceShared p n hooked =>
    match s.registry.cache.produced? n with
    | some v => (s.report h [.producedReturned n], answer (.value v) frames)
    | none => (s, call h p.callback (.producing p n true hooked :: frames))
  | .body callback => (s, call h callback frames)

def stepPoint (h : Host ω) (id : ThreadId) (s : Shared ω) (frames : List (Frame ω)) :
    Point → Option (Taken ω)
  | .start r => stepStart h id s frames r
  | .glance n early =>
    match s.registry.cache.complete? n with
    | some v => some (s.report h [.cachedReturned n], answer (.found (some v)) frames)
    | none => some (s, goto (.glanceAgain n early) frames)
  | .glanceAgain n early =>
    if s.registry.cache.isInCreation n then some (s, goto (.await (.look n early)) frames)
    else some (s, answer (.found none) frames)
  | .await sec =>
    if s.mutex.admits id then
      some ({ s with mutex := s.mutex.acquire id }, goto (.inside sec) (.guarded :: frames))
    else none
  | .inside sec => some (stepInside h s frames sec)
  | .restore n producer r =>
    some (s.withCache (s.registry.cache.restore n producer), ⟨.reply r, frames⟩)
  | .produce p n shared hooked =>
    if shared && s.registry.cache.contains n then
      some (s, goto (.await (.produceShared p n hooked)) frames)
    else some (s, call h p.callback (.producing p n false hooked :: frames))
  | .gather =>
    some (s.report h [.destroyingAll s.registry.disposals.size], goto (.agenda s.registry.agendaOfAll) frames)
  | .agenda [] => some (s, answer .done frames)
  | .agenda (task :: rest) =>
    if task.isGuarded && !s.mutex.admits id then none
    else
      match task.course s.registry with
      | .on registry tasks events =>
        some ({ s with registry }.report h events, goto (.agenda (tasks ++ rest)) frames)
      | .run n disposal => some (s, call h disposal (.disposing n disposal rest :: frames))

/-! ## Replies -/

/-- The reply of a look-up for one type. -/
def typedReply (n : Name) (t : TypeTag) : Answer → Reply
  | .found (some (some i)) =>
    if i.isOf t then .ok (.found (some (some i))) else .failed (.wrongType n t.fullName)
  | _ => .ok (.found none)

/-- A creation without a value ends with a reply, once the early producer that survives it is put
back. -/
def leave (s : Shared ω) (frames : List (Frame ω)) (n : Name) (survivor : Option Callback) (r : Reply) :
    Taken ω :=
  match survivor with
  | none => (s, ⟨.reply r, frames⟩)
  | some producer => (s, goto (.restore n producer r) frames)

/-- What a creation replies whose callback failed, given the cache after it was abandoned and the
failures it collected. A conflict gives way to an instance that appeared meanwhile. -/
def failedCreation (cache : Cache) (n : Name) (f : Failure) (collected : List Failure) : Logged Reply :=
  match f.isConflict, cache.complete? n with
  | true, some v => ⟨.ok (.value v), [.appearedMeanwhile n]⟩
  | _, _ => ⟨.failed ((f.ofCreation n).withRelated collected), []⟩

/-- A creation hears from its callback. -/
def stepCreating (h : Host ω) (s : Shared ω) (frames : List (Frame ω)) (w : Cache.Window) :
    Reply → Taken ω
  | .ok a => (s.withCache (s.registry.cache.closeWith w a.toValue), answer (.value a.toValue) frames)
  | .failed f =>
    -- the collected failures are read off before the window that owns them closes
    let (cache, survivor) := s.registry.cache.abandon w
    let r := failedCreation cache w.name f (s.registry.cache.collected w)
    leave ((s.withCache cache).report h r.events) frames w.name survivor r.value
  | .panicked t =>
    let (cache, survivor) := s.registry.cache.abandon w
    leave (s.withCache cache) frames w.name survivor (.panicked t)

/-- The hook is to run on an object, or the object passes because there is no hook. -/
def startHook (h : Host ω) (s : Shared ω) (frames : List (Frame ω)) (n : Name) (shared : Bool)
    (object : Instance) : Taken ω :=
  match s.registry.hook with
  | none => (s, answer (.value (some object)) (.hooking n shared object :: frames))
  | some hook => (s, ⟨.program (h.program hook (.object object n)), .hooking n shared object :: frames⟩)

/-- A request for an object hears from the producer. -/
def stepProducing (h : Host ω) (s : Shared ω) (frames : List (Frame ω)) (n : Name)
    (shared hooked : Bool) : Reply → Taken ω
  | .panicked t => (s, ⟨.reply (.panicked t), frames⟩)
  | .failed f => (s, fail (f.ofProducer n) frames)
  | .ok a =>
    let cache := s.registry.cache
    -- nothing yielded while the name is in creation is a circle, not a value
    if a.toValue.isNone && cache.isInCreation n then
      (s, fail (.currentlyInCreation n .yieldedNothing) frames)
    else if shared then
      match cache.produced? n with
      -- a request nested in the producer was faster, and its object counts
      | some kept => (s, answer (.value kept) frames)
      | none =>
        match a.toValue, hooked with
        | some object, true =>
          if cache.hookBarred n then (s.report h [.rawReturned n], answer (.value (some object)) frames)
          else startHook h (s.withCache (cache.beginHook n)) frames n true object
        | v, _ => (s.withCache (cache.keep n v), answer (.value v) frames)
    else
      match a.toValue, hooked with
      | some object, true => startHook h s frames n false object
      | v, _ => (s, answer (.value v) frames)

/-- A request for an object hears from the hook. A hook that yields nothing leaves the object as it
was. The object of a shared producer is kept, unless the hook panicked: then it stays marked as being
hooked. -/
def stepHooking (s : Shared ω) (frames : List (Frame ω)) (n : Name) (shared : Bool) (object : Instance) :
    Reply → Taken ω
  | .panicked t => (s, ⟨.reply (.panicked t), frames⟩)
  | .failed f =>
    if shared then
      (s.withCache (s.registry.cache.endHook n), fail (.creationFailed n .singletonHook (some (.failure f)) []) frames)
    else (s, fail (.creationFailed n .hook (some (.failure f)) []) frames)
  | .ok a =>
    let v : Value := some (a.toValue.getD object)
    if shared then (s.withCache ((s.registry.cache.endHook n).keep n v), answer (.value v) frames)
    else (s, answer (.value v) frames)

/-- A frame hears the reply it waited for. -/
def stepReply (h : Host ω) (s : Shared ω) (frames : List (Frame ω)) (r : Reply) : Frame ω → Taken ω
  | .caller next =>
    match r with
    | .ok a => (s, ⟨.program (next (.ok a)), frames⟩)
    | .failed f => (s, ⟨.program (next (.error f)), frames⟩)
    | .panicked t => (s, ⟨.reply (.panicked t), frames⟩)
  | .guarded => ({ s with mutex := s.mutex.release }, ⟨.reply r, frames⟩)
  | .typed n t =>
    match r with
    | .ok a => (s, ⟨.reply (typedReply n t a), frames⟩)
    | r => (s, ⟨.reply r, frames⟩)
  | .creating w _ => stepCreating h s frames w r
  | .exposing n _ =>
    match r with
    | .ok a =>
      let (v, cache) := s.registry.cache.expose n a.toValue
      ((s.withCache cache).report h v.events, answer (.found (some v.value)) frames)
    | r => (s, ⟨.reply r, frames⟩)
  | .producing _ n shared hooked => stepProducing h s frames n shared hooked r
  | .hooking n shared object => stepHooking s frames n shared object r
  | .disposing n _ rest =>
    match r with
    | .ok _ => (s.report h [.disposed n], goto (.agenda rest) frames)
    | .failed f => (s.report h [.disposalFailed n f], goto (.agenda rest) frames)
    | .panicked t => (s, ⟨.reply (.panicked t), frames⟩)

/-- The next step of thread `id`; there is none when it has ended or waits for the mutex. -/
def step (h : Host ω) (id : ThreadId) (s : Shared ω) (t : Thread ω) : Option (Taken ω) :=
  match t.control with
  | .program p => some (stepProgram s t.frames p)
  | .point p => stepPoint h id s t.frames p
  | .reply r =>
    match t.frames with
    | [] => none
    | f :: frames => some (stepReply h s frames r f)

/-- The thread after at most `limit` steps, fewer if it ends or has to wait. -/
def advance (h : Host ω) (id : ThreadId) : (limit : Nat) → Shared ω → Thread ω → Taken ω
  | 0, s, t => (s, t)
  | limit + 1, s, t =>
    match t.step h id s with
    | none => (s, t)
    | some (s', t') => advance h id limit s' t'

end Thread

end Singletons
