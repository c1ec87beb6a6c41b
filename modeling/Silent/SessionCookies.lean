import Mathlib.Data.List.Induction
import Silent.Sessions

/-! Which cookies leave the server: the announcement of a new session, and what becomes of
the additions and removals of a handler on their way through the session middleware, the
cookie middleware and `from_internal`. -/
namespace Silent.SessionCookies
open ByteText Cookies Sessions
open HttpRequest (SilentError SilentResult)

variable {W S X Q P : Type}

section
variable {encode : Cookie → Option Text}

theorem finishCookies (cookies : CookieJar) (session : S) (res : Response S X P) :
    (finish cookies session res).extensions.jar =
      match res.extensions.cookies with
      | none => cookies
      | some jar => cookies.addAll jar.iter := by
  obtain ⟨headers, ⟨jar, held, others⟩, rest⟩ := res
  cases held <;> cases jar <;> rfl

theorem emittedHeader {res : Response S X P} {entry : DeltaCookie} (inside : entry ∈ res.extensions.jar.delta) {header : Text}
    (encodes : encode entry.cookie = some header) : ("set-cookie".toList, header) ∈ (fromInternal encode res).headers := by
  refine List.mem_append_right _ (List.mem_filterMap.mpr ⟨entry.cookie, List.mem_filter.mpr ⟨?_, ?_⟩, ?_⟩)
  · exact List.mem_map_of_mem inside
  · simp [encodes]
  · simp [encodes]

end

structure Announced (encode : Cookie → Option Text) (key : Text) (res : Response S X P) : Prop where
  added : ∃ cookie, (⟨cookie, false⟩ : DeltaCookie) ∈ res.extensions.jar.delta ∧ cookie.name = sessionName ∧ cookie.value = key ∧
    ∀ header, encode cookie = some header → ("set-cookie".toList, header) ∈ (fromInternal encode res).headers

inductive JarChoice where
  | none
  | fresh (additions : List Cookie)
  | requested (additions : List Cookie)

def JarChoice.additions : JarChoice → List Cookie
  | .none => []
  | .fresh additions | .requested additions => additions

def JarChoice.jar (cookies : CookieJar) : JarChoice → Option CookieJar
  | .none => Option.none
  | .fresh additions => some (CookieJar.new.addAll additions)
  | .requested additions => some (cookies.addAll additions)

section
variable {jar : CookieJar}

theorem addOther {cookie : Cookie} {name : Text} (other : cookie.name ≠ name) (kept : Cookie) (named : kept.name = name) :
    kept ∈ (jar.add cookie).iter ↔ kept ∈ jar.iter := by
  have apart : kept.name ≠ cookie.name := fun same => other (same.symm.trans named)
  have same : (jar.add cookie).touched kept.name = jar.touched kept.name := by
    rw [Bool.eq_iff_iff, touchedIff, touchedIff]
    constructor
    · rintro ⟨entry, inside, matched⟩
      rcases memAdd.mp inside with rfl | ⟨old, -⟩
      · exact absurd matched.symm apart
      · exact ⟨entry, old, matched⟩
    · rintro ⟨entry, inside, matched⟩
      exact ⟨entry, memAdd.mpr (.inr ⟨inside, matched.symm ▸ apart⟩), matched⟩
  rw [memIter, memIter, memAdd, same]
  refine or_congr ⟨?_, fun old => .inr ⟨old, apart⟩⟩ Iff.rfl
  rintro (added | ⟨old, -⟩)
  · exact absurd (congrArg DeltaCookie.name added) apart
  · exact old

theorem addAllOther {additions : List Cookie} {name : Text} (others : ∀ cookie ∈ additions, cookie.name ≠ name) (kept : Cookie)
    (named : kept.name = name) : kept ∈ (jar.addAll additions).iter ↔ kept ∈ jar.iter := by
  induction additions generalizing jar with
  | nil => rfl
  | cons cookie additions ih =>
    have rest := @ih (jar.add cookie) fun other among => others other (List.mem_cons_of_mem _ among)
    rw [CookieJar.addAll, List.foldl_cons, ← CookieJar.addAll, rest, addOther (others cookie List.mem_cons_self) kept named]

end

theorem announcedJar {encode : Cookie → Option Text} {key : Text} {jar : CookieJar} {res : Response S X P} {returned : CookieJar}
    (held : res.extensions.jar = (jar.add (sessionCookie key)).addAll returned.iter) :
    Announced encode key res ↔ ∀ cookie, returned.get sessionName = some cookie → cookie.value = key := by
  constructor
  · rintro ⟨cookie, inside, named, valued, -⟩ other found
    obtain ⟨live, same⟩ := getIter.mp found
    rw [held, memAddAll iterDistinct] at inside
    rcases inside with ⟨-, listed⟩ | ⟨-, free⟩
    · have again := getIter.mpr ⟨listed, named⟩
      rw [found] at again
      exact Option.some.inj again ▸ valued
    · exact absurd (named.trans same.symm) (free other live)
  · intro agrees
    cases found : returned.get sessionName with
    | some other =>
      obtain ⟨live, same⟩ := getIter.mp found
      have inside : (⟨other, false⟩ : DeltaCookie) ∈ res.extensions.jar.delta := by
        rw [held, memAddAll iterDistinct]
        exact .inl ⟨rfl, live⟩
      exact ⟨other, inside, same, agrees other found, fun _ encodes => emittedHeader inside encodes⟩
    | none =>
      have free : ∀ cookie ∈ returned.iter, cookie.name ≠ sessionName := fun cookie live same => by
        rw [getIter.mpr ⟨live, same⟩] at found
        cases found
      have inside : (⟨sessionCookie key, false⟩ : DeltaCookie) ∈ res.extensions.jar.delta := by
        rw [held, memAddAll iterDistinct]
        exact .inr ⟨memAdd.mpr (.inl rfl), fun cookie live same => free cookie live same.symm⟩
      exact ⟨_, inside, rfl, rfl, fun _ encodes => emittedHeader inside encodes⟩

theorem choiceGet {choice : JarChoice} {cookies returned : CookieJar} (others : ∀ cookie ∈ choice.additions, cookie.name ≠ sessionName)
    (form : some returned = choice.jar cookies) {cookie : Cookie} :
    returned.get sessionName = some cookie ↔ (∃ additions, choice = .requested additions) ∧ cookies.get sessionName = some cookie := by
  cases choice with
  | none => cases form
  | fresh additions =>
    cases form
    rw [getIter]
    constructor
    · rintro ⟨live, named⟩
      cases (addAllOther others cookie named).mp live
    · rintro ⟨⟨additions, same⟩, -⟩
      cases same
  | requested additions =>
    cases form
    rw [getIter, getIter]
    constructor
    · rintro ⟨live, named⟩
      exact ⟨⟨additions, rfl⟩, (addAllOther others cookie named).mp live, named⟩
    · rintro ⟨-, live, named⟩
      exact ⟨(addAllOther others cookie named).mpr live, named⟩

theorem newSessionAnnounced (encode : Cookie → Option Text) (store : SessionStore (StateM W) S) (req : Request S X Q)
    (next : Request S X Q → StateM W (SilentResult (Response S X P))) (w w1 w2 : W) (opened : Opened S) (res : Response S X P)
    (choice : JarChoice) (opens : (openSession store req.cookies).run.run w = (.ok opened, w1)) (created : opened.created = true)
    (replies : (next (req.insertSession opened.session)).run w1 = (.ok res, w2))
    (form : res.extensions.cookies = choice.jar req.cookies) (others : ∀ cookie ∈ choice.additions, cookie.name ≠ sessionName) :
    ∃ final, (SessionMiddleware.handle store req next).run w = (.ok final, w2) ∧
      (Announced encode opened.key final ↔
        ∀ additions cookie, choice = .requested additions → req.cookies.get sessionName = some cookie → cookie.value = opened.key) := by
  refine ⟨_, handleRuns opens replies, ?_⟩
  have jar := finishCookies (withAnnouncement req.cookies opened) opened.session res
  rw [withAnnouncement, if_pos created] at jar ⊢
  cases held : res.extensions.cookies with
  | none =>
    simp only [held] at jar
    have alone : (finish (req.cookies.add (sessionCookie opened.key)) opened.session res).extensions.jar =
        (req.cookies.add (sessionCookie opened.key)).addAll CookieJar.new.iter := jar
    rw [announcedJar alone]
    constructor
    · intro _ additions cookie same
      rw [held, same] at form
      cases form
    · intro _ cookie found
      cases found
  | some returned =>
    simp only [held] at jar
    rw [announcedJar jar]
    rw [held] at form
    constructor
    · intro agrees additions cookie same found
      exact agrees cookie ((choiceGet others form).mpr ⟨⟨additions, same⟩, found⟩)
    · intro agrees cookie found
      obtain ⟨⟨additions, same⟩, before⟩ := (choiceGet others form).mp found
      exact agrees additions cookie same before

def oneKey : SessionStore (StateM Unit) Unit where
  newSession := pure ()
  storeSession _ := pure (.ok (some "fresh".toList))
  loadSession key := pure (.ok (if key = "fresh".toList then some () else none))

def bare : Request Unit Unit Unit := ⟨[], ⟨none, none, ()⟩, ()⟩

def stale : Request Unit Unit Unit := bare.insertCookies (CookieJar.new.addOriginal ⟨sessionName, "stale".toList, none, none, none, []⟩)

def returnJar (req : Request Unit Unit Unit) : StateM Unit (SilentResult (Response Unit Unit Unit)) :=
  pure (.ok ⟨[], ⟨some req.cookies, none, ()⟩, ()⟩)

theorem bareRequestAnnounced :
    ∃ final, (SessionMiddleware.handle oneKey bare returnJar).run () = (.ok final, ()) ∧
      Announced (fun cookie => some cookie.value) "fresh".toList final := by
  obtain ⟨final, ran, announced⟩ := newSessionAnnounced (fun cookie => some cookie.value) oneKey bare returnJar () () ()
    ⟨(), "fresh".toList, true⟩ _ (.requested []) rfl rfl rfl rfl (by simp [JarChoice.additions])
  exact ⟨final, ran, announced.mpr fun additions cookie _ found => by cases found⟩

theorem staleCookieHidesAnnouncement :
    ∃ final, (openSession oneKey stale.cookies).run.run () = (.ok ⟨(), "fresh".toList, true⟩, ()) ∧
      (SessionMiddleware.handle oneKey stale returnJar).run () = (.ok final, ()) ∧
      ¬Announced (fun cookie => some cookie.value) "fresh".toList final := by
  refine ⟨_, rfl, rfl, ?_⟩
  intro announced
  obtain ⟨cookie, inside, -, valued, -⟩ := announced
  have single : (⟨cookie, false⟩ : DeltaCookie) = ⟨⟨sessionName, "stale".toList, none, none, none, []⟩, false⟩ :=
    List.mem_singleton.mp inside
  rw [(DeltaCookie.mk.inj single).1] at valued
  exact absurd valued (by decide)

inductive JarOp where
  | add (cookie : Cookie)
  | remove (now : Int) (cookie : Cookie)

def JarOp.name : JarOp → Text
  | .add cookie | .remove _ cookie => cookie.name

def JarOp.isAdd : JarOp → Bool
  | .add _ => true
  | .remove _ _ => false

def JarOp.apply (jar : CookieJar) : JarOp → CookieJar
  | .add cookie => jar.add cookie
  | .remove now cookie => jar.remove now cookie

def applyAll (jar : CookieJar) (ops : List JarOp) : CookieJar := ops.foldl JarOp.apply jar

def lastAdds (ops : List JarOp) (name : Text) : Bool := ops.foldl (fun adds op => if op.name = name then op.isAdd else adds) false

section
variable {jar : CookieJar}

theorem applyOriginal (op : JarOp) : (op.apply jar).original = jar.original := by
  cases op with
  | add cookie => rfl
  | remove now cookie =>
    simp only [JarOp.apply, CookieJar.remove]
    split <;> rfl

theorem applyAllOriginal (ops : List JarOp) : (applyAll jar ops).original = jar.original := by
  unfold applyAll
  induction ops generalizing jar with
  | nil => rfl
  | cons op ops ih => rw [List.foldl_cons, ih, applyOriginal]

theorem memApply {op : JarOp} {entry : DeltaCookie} (inside : entry ∈ (op.apply jar).delta) :
    entry.name = op.name ∧ (op.isAdd = true ∧ entry.removed = false ∨
        op.isAdd = false ∧ entry.removed = true ∧ ∃ cookie ∈ jar.original, cookie.name = entry.name) ∨
      entry.name ≠ op.name ∧ entry ∈ jar.delta := by
  cases op with
  | add cookie =>
    rcases memAdd.mp inside with rfl | ⟨old, other⟩
    · exact .inl ⟨rfl, .inl ⟨rfl, rfl⟩⟩
    · exact .inr ⟨other, old⟩
  | remove now cookie =>
    simp only [JarOp.apply, CookieJar.remove] at inside
    split at inside
    · rename_i present
      rcases (memReplace DeltaCookie.name).mp inside with rfl | ⟨old, other⟩
      · exact .inl ⟨rfl, .inr ⟨rfl, rfl, by simpa [DeltaCookie.name, Cookie.makeRemoval] using present⟩⟩
      · exact .inr ⟨other, old⟩
    · obtain ⟨old, other⟩ := (memDrop DeltaCookie.name).mp inside
      exact .inr ⟨other, old⟩

theorem applyOther {op : JarOp} {entry : DeltaCookie} (old : entry ∈ jar.delta) (other : entry.name ≠ op.name) :
    entry ∈ (op.apply jar).delta := by
  cases op with
  | add cookie => exact memAdd.mpr (.inr ⟨old, other⟩)
  | remove now cookie =>
    simp only [JarOp.apply, CookieJar.remove]
    split
    · exact (memReplace DeltaCookie.name).mpr (.inr ⟨old, other⟩)
    · exact (memDrop DeltaCookie.name).mpr ⟨old, other⟩

theorem removedOriginal (ops : List JarOp)
    (start : ∀ entry ∈ jar.delta, entry.removed = true → ∃ cookie ∈ jar.original, cookie.name = entry.name) :
    ∀ entry ∈ (applyAll jar ops).delta, entry.removed = true → ∃ cookie ∈ jar.original, cookie.name = entry.name := by
  unfold applyAll
  induction ops generalizing jar with
  | nil => exact start
  | cons op ops ih =>
    have next := @ih (op.apply jar) fun entry inside removed => by
      rw [applyOriginal]
      rcases memApply inside with ⟨-, ⟨-, live⟩ | ⟨-, -, found⟩⟩ | ⟨-, old⟩
      · rw [removed] at live
        cases live
      · exact found
      · exact start entry old removed
    rwa [applyOriginal] at next

theorem liveApply (op : JarOp) (name : Text) :
    (∃ entry ∈ (op.apply jar).delta, entry.name = name ∧ entry.removed = false) ↔
      if op.name = name then op.isAdd = true else ∃ entry ∈ jar.delta, entry.name = name ∧ entry.removed = false := by
  by_cases here : op.name = name
  · rw [if_pos here]
    constructor
    · rintro ⟨entry, inside, named, live⟩
      rcases memApply inside with ⟨-, ⟨adds, -⟩ | ⟨-, removed, -⟩⟩ | ⟨other, -⟩
      · exact adds
      · rw [live] at removed
        cases removed
      · exact absurd (named.trans here.symm) other
    · intro adds
      cases op with
      | add cookie => exact ⟨⟨cookie, false⟩, memAdd.mpr (.inl rfl), here, rfl⟩
      | remove now cookie => cases adds
  · rw [if_neg here]
    constructor
    · rintro ⟨entry, inside, named, live⟩
      rcases memApply inside with ⟨same, -⟩ | ⟨-, old⟩
      · exact absurd (same.symm.trans named) here
      · exact ⟨entry, old, named, live⟩
    · rintro ⟨entry, old, named, live⟩
      exact ⟨entry, applyOther old fun same => here (same.symm.trans named), named, live⟩

theorem liveLast (clean : jar.delta = []) (ops : List JarOp) (name : Text) :
    (∃ entry ∈ (applyAll jar ops).delta, entry.name = name ∧ entry.removed = false) ↔ lastAdds ops name = true := by
  induction ops using List.reverseRecOn with
  | nil => simp [applyAll, clean, lastAdds]
  | append_singleton ops op ih =>
    rw [applyAll, List.foldl_append, List.foldl_cons, List.foldl_nil, ← applyAll, liveApply, lastAdds, List.foldl_append,
      List.foldl_cons, List.foldl_nil, ← lastAdds]
    split
    · rfl
    · exact ih

end

-- The two middlewares in the order `build_route_tree` installs them, between the two ends of the protocol.
def serve (store : SessionStore (StateM W) S) (parse : Text → Option Cookie) (encode : Cookie → Option Text) (message : Request S X Q)
    (handler : Request S X Q → StateM W (SilentResult (Response S X P))) : StateM W (SilentResult (Response S X P)) := do
  let res ← CookieMiddleware.handle parse (intoInternal parse message) fun req => SessionMiddleware.handle store req handler
  pure (res.map (fromInternal encode))

def others (cookies : List Cookie) : List Cookie := cookies.filter (fun cookie => cookie.name ≠ sessionName)

def Preserved (encode : Cookie → Option Text) (res : Response S X P) (returned : CookieJar) : Prop :=
  (others (emitted encode res)).Perm (others (returned.delta.map DeltaCookie.cookie))

section
variable {parse : Text → Option Cookie} {encode : Cookie → Option Text}

theorem parsedJar {parts : List Text} {jar : CookieJar} (clean : jar.delta = [])
    (known : ∀ cookie ∈ jar.original, ∃ part, parse part = some cookie) :
    (parts.foldl (addParsed parse) jar).delta = [] ∧
    ∀ cookie ∈ (parts.foldl (addParsed parse) jar).original, ∃ part, parse part = some cookie := by
  induction parts generalizing jar with
  | nil => exact ⟨clean, known⟩
  | cons part parts ih =>
    rw [List.foldl_cons]
    cases read : parse (trim part) with
    | none => simpa only [addParsed, read] using ih clean known
    | some cookie =>
      simp only [addParsed, read]
      refine ih clean fun other among => ?_
      rcases (memReplace Cookie.name).mp among with rfl | ⟨old, -⟩
      · exact ⟨_, read⟩
      · exact known other old

theorem readJar {code : Nat} {headers : List (Text × Text)} {jar : CookieJar} (read : readCookies parse code headers = .ok jar) :
    jar.delta = [] ∧ ∀ cookie ∈ jar.original, ∃ part, parse part = some cookie := by
  unfold readCookies at read
  split at read
  · cases read
    exact ⟨rfl, nofun⟩
  · split at read
    · cases read
    · cases read
      exact parsedJar rfl nofun

theorem mergedJar (jar : CookieJar) {res : Response S X P} {held : CookieJar} (returned : res.extensions.cookies = some held) :
    (mergeDelta jar res).extensions.jar = jar.addAll (held.delta.map DeltaCookie.cookie) := by
  simp only [mergeDelta, returned]
  rfl

theorem memDelta {jar : CookieJar} {cookie : Cookie} :
    cookie ∈ jar.delta.map DeltaCookie.cookie ↔ ∃ entry ∈ jar.delta, entry.cookie = cookie := by
  simp

theorem deltaCookiesDistinct (jar : CookieJar) : ((jar.delta.map DeltaCookie.cookie).map Cookie.name).Nodup := by
  rw [List.map_map]
  exact jar.deltaDistinct

theorem arrives {jar start returned : CookieJar} (clean : jar.delta = []) (announced : ∀ entry ∈ start.delta, entry.name = sessionName)
    {cookie : Cookie} (other : cookie.name ≠ sessionName) :
    cookie ∈ (jar.addAll ((start.addAll returned.iter).delta.map DeltaCookie.cookie)).delta.map DeltaCookie.cookie ↔
      cookie ∈ returned.iter := by
  have outer : cookie ∈ (jar.addAll ((start.addAll returned.iter).delta.map DeltaCookie.cookie)).delta.map DeltaCookie.cookie ↔
      cookie ∈ (start.addAll returned.iter).delta.map DeltaCookie.cookie := by
    rw [memDelta]
    constructor
    · rintro ⟨entry, inside, rfl⟩
      rcases (memAddAll (deltaCookiesDistinct _)).mp inside with ⟨-, listed⟩ | ⟨old, -⟩
      · exact listed
      · rw [clean] at old
        cases old
    · intro listed
      exact ⟨⟨cookie, false⟩, (memAddAll (deltaCookiesDistinct _)).mpr (.inl ⟨rfl, listed⟩), rfl⟩
  rw [outer, memDelta]
  constructor
  · rintro ⟨entry, inside, rfl⟩
    rcases (memAddAll iterDistinct).mp inside with ⟨-, live⟩ | ⟨old, -⟩
    · exact live
    · exact absurd (announced entry old) other
  · intro live
    exact ⟨⟨cookie, false⟩, (memAddAll iterDistinct).mpr (.inl ⟨rfl, live⟩), rfl⟩

theorem distinctCookies {cookies : List Cookie} (distinct : (cookies.map Cookie.name).Nodup) : cookies.Nodup :=
  List.Nodup.of_map _ distinct

theorem preservedMembers {res : Response S X P} {returned : CookieJar} {jar start : CookieJar} (clean : jar.delta = [])
    (announced : ∀ entry ∈ start.delta, entry.name = sessionName)
    (held : res.extensions.jar = jar.addAll ((start.addAll returned.iter).delta.map DeltaCookie.cookie)) :
    Preserved encode res returned ↔ ∀ cookie, cookie.name ≠ sessionName →
      (cookie ∈ returned.iter ∧ (encode cookie).isSome = true ↔ ∃ entry ∈ returned.delta, entry.cookie = cookie) := by
  have left : (others (emitted encode res)).Nodup :=
    ((distinctCookies (deltaCookiesDistinct res.extensions.jar)).filter _).filter _
  have right : (others (returned.delta.map DeltaCookie.cookie)).Nodup := (distinctCookies (deltaCookiesDistinct returned)).filter _
  rw [Preserved, List.perm_ext_iff_of_nodup left right]
  refine forall_congr' fun cookie => ?_
  by_cases other : cookie.name ≠ sessionName
  · simp only [others, emitted, List.mem_filter, held, arrives clean announced other, memDelta, other, decide_true, and_true,
      not_false_eq_true, forall_const, ne_eq]
  · simp [others, other]

theorem readdedWhenSame {jar : CookieJar} {ops : List JarOp} (clean : jar.delta = [])
    (encodes : ∀ cookie ∈ jar.original, (encode cookie).isSome = true)
    (same : ∀ cookie, cookie.name ≠ sessionName →
      (cookie ∈ (applyAll jar ops).iter ∧ (encode cookie).isSome = true ↔ ∃ entry ∈ (applyAll jar ops).delta, entry.cookie = cookie))
    {cookie : Cookie} (known : cookie ∈ jar.original) (other : cookie.name ≠ sessionName) : lastAdds ops cookie.name = true := by
  rw [← liveLast clean]
  have touched : (applyAll jar ops).touched cookie.name = true := by
    by_contra free
    have untouched : (applyAll jar ops).touched cookie.name = false := by simpa using free
    have live : cookie ∈ (applyAll jar ops).iter := memIter.mpr (.inr ⟨by rwa [applyAllOriginal], untouched⟩)
    obtain ⟨entry, inside, equal⟩ := (same cookie other).mp ⟨live, encodes cookie known⟩
    exact free (touchedIff.mpr ⟨entry, inside, congrArg Cookie.name equal⟩)
  obtain ⟨entry, inside, named⟩ := touchedIff.mp touched
  have entryOther : entry.cookie.name ≠ sessionName := fun session => other (named.symm.trans session)
  rcases memIter.mp ((same entry.cookie entryOther).mpr ⟨entry, inside, rfl⟩).1 with live | ⟨-, untouched⟩
  · exact ⟨_, live, named, rfl⟩
  · rw [show entry.cookie.name = cookie.name from named, touched] at untouched
    cases untouched

theorem addedWhenReadded {jar : CookieJar} {ops : List JarOp} (clean : jar.delta = [])
    (readded : ∀ cookie ∈ jar.original, cookie.name ≠ sessionName → lastAdds ops cookie.name = true) {entry : DeltaCookie}
    (inside : entry ∈ (applyAll jar ops).delta) (other : entry.name ≠ sessionName) :
    (⟨entry.cookie, false⟩ : DeltaCookie) ∈ (applyAll jar ops).delta := by
  cases removed : entry.removed with
  | false =>
    rw [← removed]
    exact inside
  | true =>
    obtain ⟨cookie, known, named⟩ := removedOriginal ops (by simp [clean]) entry inside removed
    have again := readded cookie known fun session => other (named.symm.trans session)
    obtain ⟨added, found, same, live⟩ := (liveLast clean ops cookie.name).mpr again
    have equal := sameName DeltaCookie.name (applyAll jar ops).deltaDistinct inside found (named.symm.trans same.symm)
    rw [← equal, removed] at live
    cases live

theorem preservedWhen {jar : CookieJar} {ops : List JarOp} (clean : jar.delta = [])
    (encodes : ∀ cookie ∈ jar.original, (encode cookie).isSome = true) :
    (∀ cookie, cookie.name ≠ sessionName →
      (cookie ∈ (applyAll jar ops).iter ∧ (encode cookie).isSome = true ↔ ∃ entry ∈ (applyAll jar ops).delta, entry.cookie = cookie)) ↔
    (∀ cookie ∈ jar.original, cookie.name ≠ sessionName → lastAdds ops cookie.name = true) ∧
      ∀ entry ∈ (applyAll jar ops).delta, entry.name ≠ sessionName → (encode entry.cookie).isSome = true := by
  constructor
  · intro same
    exact ⟨fun cookie known other => readdedWhenSame clean encodes same known other,
      fun entry inside other => ((same entry.cookie other).mpr ⟨entry, inside, rfl⟩).2⟩
  · rintro ⟨readded, encoded⟩ cookie other
    constructor
    · rintro ⟨live, -⟩
      rcases memIter.mp live with added | ⟨known, untouched⟩
      · exact ⟨_, added, rfl⟩
      · rw [applyAllOriginal] at known
        obtain ⟨entry, inside, named, -⟩ := (liveLast clean ops cookie.name).mpr (readded cookie known other)
        rw [touchedIff.mpr ⟨entry, inside, named⟩] at untouched
        cases untouched
    · rintro ⟨entry, inside, rfl⟩
      exact ⟨memIter.mpr (.inl (addedWhenReadded clean readded inside other)), encoded entry inside other⟩

end

theorem deltaPreserved (store : SessionStore (StateM W) S) (parse : Text → Option Cookie) (encode : Cookie → Option Text)
    (parsedEncodes : ∀ part cookie, parse part = some cookie → (encode cookie).isSome = true) (message : Request S X Q)
    (handler : Request S X Q → StateM W (SilentResult (Response S X P))) (w w1 w2 : W) (jar : CookieJar) (opened : Opened S)
    (res : Response S X P) (ops : List JarOp) (read : readCookies parse 400 message.headers = .ok jar)
    (opens : (openSession store jar).run.run w = (.ok opened, w1))
    (replies : (handler (((intoInternal parse message).insertCookies jar).insertSession opened.session)).run w1 = (.ok res, w2))
    (returned : res.extensions.cookies = some (applyAll jar ops)) :
    ∃ inner, (serve store parse encode message handler).run w = (.ok (fromInternal encode inner), w2) ∧
      (Preserved encode inner (applyAll jar ops) ↔
        (∀ cookie ∈ jar.original, cookie.name ≠ sessionName → lastAdds ops cookie.name = true) ∧
          ∀ entry ∈ (applyAll jar ops).delta, entry.name ≠ sessionName → (encode entry.cookie).isSome = true) := by
  obtain ⟨clean, known⟩ := readJar read
  have ran : (SessionMiddleware.handle store ((intoInternal parse message).insertCookies jar) handler).run w = _ :=
    handleRuns opens replies
  have inner : (finish (withAnnouncement jar opened) opened.session res).extensions.cookies =
      some ((withAnnouncement jar opened).addAll (applyAll jar ops).iter) := by
    unfold finish
    split <;> simp [Response.insertSession, Response.insertCookies, returned]
  have announced : ∀ entry ∈ (withAnnouncement jar opened).delta, entry.name = sessionName := by
    intro entry inside
    unfold withAnnouncement at inside
    split at inside
    · rcases memAdd.mp inside with rfl | ⟨old, -⟩
      · rfl
      · rw [clean] at old
        cases old
    · rw [clean] at inside
      cases inside
  refine ⟨mergeDelta jar (finish (withAnnouncement jar opened) opened.session res), ?_, ?_⟩
  · have headers : (intoInternal parse message).headers = message.headers := rfl
    unfold serve CookieMiddleware.handle
    simp only [headers, read, StateT.run_bind, ran]
    rfl
  · rw [preservedMembers clean announced (mergedJar jar inner)]
    exact preservedWhen clean fun cookie among => (known cookie among).elim fun part found => parsedEncodes part cookie found

def plainCookie (name value : Text) : Cookie := ⟨name, value, none, none, none, []⟩

def pairParse (part : Text) : Option Cookie := some (plainCookie (part.takeWhile (· ≠ '=')) ((part.dropWhile (· ≠ '=')).drop 1))

def pairEncode (cookie : Cookie) : Option Text := some (cookie.name ++ '=' :: cookie.value)

def themed : Request Unit Unit Unit := ⟨[("cookie".toList, "theme=dark".toList)], ⟨none, none, ()⟩, ()⟩

def themeJar : CookieJar := CookieJar.new.addOriginal (plainCookie "theme".toList "dark".toList)

def lighten (req : Request Unit Unit Unit) : StateM Unit (SilentResult (Response Unit Unit Unit)) :=
  pure (.ok ⟨[], ⟨some (applyAll req.cookies [.add (plainCookie "theme".toList "light".toList)]), none, ()⟩, ()⟩)

theorem replacedCookiePreserved :
    ∃ inner, (serve oneKey pairParse pairEncode themed lighten).run () = (.ok (fromInternal pairEncode inner), ()) ∧
      Preserved pairEncode inner (applyAll themeJar [.add (plainCookie "theme".toList "light".toList)]) := by
  obtain ⟨inner, ran, preserved⟩ := deltaPreserved oneKey pairParse pairEncode (fun _ _ _ => rfl) themed lighten () () () themeJar
    ⟨(), "fresh".toList, true⟩ _ [.add (plainCookie "theme".toList "light".toList)] rfl rfl rfl rfl
  exact ⟨inner, ran, preserved.mpr (by decide)⟩

theorem untouchedCookieSent :
    ∃ inner, (serve oneKey pairParse pairEncode themed returnJar).run () = (.ok (fromInternal pairEncode inner), ()) ∧
      ¬Preserved pairEncode inner themeJar :=
  ⟨mergeDelta themeJar (finish (withAnnouncement themeJar ⟨(), "fresh".toList, true⟩) () ⟨[], ⟨some themeJar, none, ()⟩, ()⟩), rfl,
    by unfold Preserved; decide⟩

end Silent.SessionCookies
