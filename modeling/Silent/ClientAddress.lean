import Silent.RemoteAddress

/-! Which address a request is taken to come from: when the headers and the peer are used as
`set_remote` says they are, and when the way through a header loses a peer. -/
namespace Silent.ClientAddress
open ByteText HeaderText NetText RemoteAddress

section
variable (platform : Option Unix) {http : HeaderValues}

def realIp (headers : Headers http) : Option IpAddr := (headers.xRealIp.bind http.toStr).bind ipText

def forwardedIp (headers : Headers http) : Option IpAddr :=
  (headers.xForwardedFor.bind http.toStr).bind fun value => (elements value).findSome? ipText

def firstIp (headers : Headers http) : Option IpAddr :=
  ((headers.xForwardedFor.bind http.toStr).bind firstElement).bind ipText

/-- The answer is the peer, up to what printing loses: the flow label of a socket, whether it
was TLS, and which Unix socket without a path it was. -/
def Denotes (answer : RemoteAddr) : RemoteAddr → Prop
  | .socket (.unix (.pathname path)) => answer = .socket (.unix (.pathname path))
  | .socket (.unix _) => ∃ addr, answer = .socket (.unix addr)
  | peer => answer = peer.shown

structure Resolved (headers : Headers http) (peer : RemoteAddr) : Prop where
  kept : (realIp headers).isSome → setRemote platform headers peer = some headers
  forwarded : realIp headers = none → ∀ ip, forwardedIp headers = some ip →
    Comes platform headers peer fun answer => answer.ip = some ip
  fallback : realIp headers = none → forwardedIp headers = none → Comes platform headers peer fun answer => Denotes answer peer

theorem realAddrIp {headers : Headers http} {found : RemoteAddr} (real : realAddr platform headers = some found) :
    found.ip = realIp headers := by
  obtain ⟨text, read, parsed⟩ := Option.bind_eq_some_iff.mp real
  rw [realIp, read]
  exact fromStrIp platform parsed

theorem realIpAddr {headers : Headers http} (unreal : realAddr platform headers = none) : realIp headers = none := by
  cases isIp : realIp headers with
  | none => rfl
  | some ip =>
    obtain ⟨text, read, parsed⟩ := Option.bind_eq_some_iff.mp isIp
    obtain ⟨found, real⟩ := fromStrOfIp platform (by rw [parsed]; rfl)
    rw [realAddr, read] at unreal
    cases real.symm.trans unreal

theorem forwardedAddrIp {headers : Headers http} {found : RemoteAddr} (forwarded : forwardedAddr platform headers = some found) :
    found.ip = firstIp headers := by
  obtain ⟨element, first, parsed⟩ := Option.bind_eq_some_iff.mp forwarded
  rw [firstIp, first]
  exact fromStrIp platform parsed

theorem firstIpAddr {headers : Headers http} {ip : IpAddr} (first : firstIp headers = some ip) :
    ∃ found, forwardedAddr platform headers = some found := by
  obtain ⟨element, first, isIp⟩ := Option.bind_eq_some_iff.mp first
  obtain ⟨found, parsed⟩ := fromStrOfIp platform (by rw [isIp]; rfl)
  exact ⟨found, by rw [forwardedAddr, first]; exact parsed⟩

theorem findSomeFirst {X Y : Type} [DecidableEq X] {empty : X} {f : X → Option Y} (blank : f empty = none) {l : List X} {x : X} {y : Y}
    (first : l.find? (· ≠ empty) = some x) (value : f x = some y) : l.findSome? f = some y := by
  induction l with
  | nil => cases first
  | cons z l ih =>
    by_cases skipped : z = empty
    · subst skipped
      rw [List.find?_cons_of_neg (by simp)] at first
      rw [List.findSome?_cons, blank]
      exact ih first
    · rw [List.find?_cons_of_pos (by simpa using skipped)] at first
      cases first
      rw [List.findSome?_cons, value]

theorem firstIpForwarded {headers : Headers http} {ip : IpAddr} (first : firstIp headers = some ip) : forwardedIp headers = some ip := by
  obtain ⟨element, first, isIp⟩ := Option.bind_eq_some_iff.mp first
  obtain ⟨value, read, first⟩ := Option.bind_eq_some_iff.mp first
  rw [forwardedIp, read]
  exact findSomeFirst (by decide) first isIp

theorem denotesIp {answer peer : RemoteAddr} (isIp : peer.ip.isSome) : Denotes answer peer ↔ answer = peer.shown := by
  cases peer with
  | socket addr =>
    cases addr with
    | tcp addr | tlsTcp addr => exact Iff.rfl
    | unix addr => cases isIp
  | ipv4 ip | ipv6 ip => exact Iff.rfl

theorem resolvedAnswer {headers : Headers http} {peer answer : RemoteAddr} (tcp : peer.ip.isSome) (notIp : realIp headers = none)
    (comes : ∀ P, Comes platform headers peer P ↔ P answer) :
    Resolved platform headers peer ↔
      (∀ ip, forwardedIp headers = some ip → answer.ip = some ip) ∧ (forwardedIp headers = none → answer = peer.shown) := by
  constructor
  · exact fun resolved => ⟨fun ip listed => (comes _).mp (resolved.forwarded notIp ip listed),
      fun unlisted => (denotesIp tcp).mp ((comes _).mp (resolved.fallback notIp unlisted))⟩
  · rintro ⟨listed, unlisted⟩
    refine ⟨fun isIp => ?_, fun _ ip same => (comes _).mpr (listed ip same), fun _ none_ => ?_⟩
    · rw [notIp] at isIp
      cases isIp
    · exact (comes _).mpr ((denotesIp tcp).mpr (unlisted none_))

theorem pathUnresolved {headers : Headers http} {peer answer : RemoteAddr} (tcp : peer.ip.isSome) (path : answer.ip = none) :
    ¬((∀ ip, forwardedIp headers = some ip → answer.ip = some ip) ∧ (forwardedIp headers = none → answer = peer.shown)) := by
  rintro ⟨listed, unlisted⟩
  cases forwarded : forwardedIp headers with
  | some ip => cases path.symm.trans (listed ip forwarded)
  | none =>
    rw [unlisted forwarded, ipShown] at path
    rw [path] at tcp
    cases tcp

/-- What keeps the answer from being a Unix path that is none, and an address of the list from
being passed over. -/
def Heeded (headers : Headers http) (peer : RemoteAddr) : Prop :=
  (realIp headers).isSome ∨ realAddr platform headers = none ∧ ((firstIp headers).isSome ∨
    forwardedAddr platform headers = none ∧ ∀ ip, forwardedIp headers = some ip → peer.ip = some ip)

theorem clientResolved (lawful : http.Lawful) (headers : Headers http) {peer : RemoteAddr} (tcp : peer.ip.isSome) :
    Resolved platform headers peer ↔ Heeded platform headers peer := by
  unfold Heeded
  cases real : realAddr platform headers with
  | some found =>
    have ip := realAddrIp platform real
    cases isIp : realIp headers with
    | some addr =>
      refine ⟨fun _ => .inl rfl, fun _ => ⟨fun _ => if_pos (by rw [real]; rfl), fun never => ?_, fun never => ?_⟩⟩
      · cases isIp.symm.trans never
      · cases isIp.symm.trans never
    | none =>
      rw [isIp] at ip
      rw [resolvedAnswer platform tcp isIp (comesReal platform real peer)]
      refine iff_of_false (pathUnresolved tcp ip) ?_
      rintro (never | ⟨never, _⟩) <;> cases never
  | none =>
    have notIp := realIpAddr platform real
    rw [notIp]
    cases forwarded : forwardedAddr platform headers with
    | some found =>
      have ip := forwardedAddrIp platform forwarded
      rw [resolvedAnswer platform tcp notIp (comesForwarded platform lawful real forwarded peer), ipShown]
      cases first : firstIp headers with
      | some addr =>
        have listed := firstIpForwarded first
        refine iff_of_true ⟨fun other same => ?_, fun none_ => ?_⟩ (.inr ⟨rfl, .inl rfl⟩)
        · rw [ip, first, ← listed, same]
        · cases listed.symm.trans none_
      | none =>
        rw [first, ← ipShown] at ip
        rw [← ipShown]
        refine iff_of_false (pathUnresolved tcp ip) ?_
        rintro (never | ⟨_, never | ⟨never, _⟩⟩) <;> cases never
    | none =>
      have unlisted : firstIp headers = none := by
        cases first : firstIp headers with
        | none => rfl
        | some ip =>
          obtain ⟨found, other⟩ := firstIpAddr platform first
          cases forwarded.symm.trans other
      rw [resolvedAnswer platform tcp notIp fun P => comesIpPeer platform lawful real forwarded tcp P, ipShown, unlisted]
      exact ⟨fun same => .inr ⟨rfl, .inr ⟨rfl, same.1⟩⟩, fun heeded => ⟨by simpa using heeded, fun _ => rfl⟩⟩

def Kept (headers : Headers http) (peer : RemoteAddr) : Prop :=
  Comes platform headers peer fun answer =>
    realAddr platform headers = none → forwardedAddr platform headers = none → Denotes answer peer

def Printable (http : HeaderValues) : RemoteAddr → Prop
  | .socket (.unix (.pathname path)) => ∃ unix s, platform = some unix ∧ Utf8Text.encode s = path ∧ s ≠ [] ∧ 0 ∉ path ∧
      path.length < unix.sunPath ∧ (∀ c ∈ s, http.mayStand c = true) ∧ ipText s = none
  | .socket (.unix _) => platform.isSome
  | _ => True

theorem unnamedComes (lawful : http.Lawful) {headers : Headers http} (unreal : realAddr platform headers = none)
    (unforwarded : forwardedAddr platform headers = none) {addr : UnixAddr} (unnamed : addr.asPathname = none) :
    Comes platform headers (.socket (.unix addr)) (fun answer => ∃ addr, answer = .socket (.unix addr)) ↔ platform.isSome := by
  have display : RemoteAddr.display (.socket (.unix addr)) = "(unnamed)".toList := by
    rw [RemoteAddr.display, SocketAddr.display, unnamed]
  have visible : ∀ c ∈ "(unnamed)".toList, ' ' ≤ c ∧ c ≤ '~' := by simp
  rw [comesPeer platform lawful unreal unforwarded, display, fromStrPath platform (by decide), and_iff_right (visibleStands lawful visible)]
  cases platform with
  | none =>
    constructor
    · intro came
      obtain ⟨_, never, _⟩ := came
      cases never
    · intro never
      cases never
  | some unix =>
    have room : ¬unix.sunPath ≤ (Utf8Text.encode "(unnamed)".toList).length := Nat.not_le.mpr unix.room
    have made : fromPathname unix "(unnamed)".toList = some (.pathname (Utf8Text.encode "(unnamed)".toList)) := by
      unfold fromPathname
      rw [if_neg (by decide), if_neg room, if_neg (by decide)]
    exact iff_of_true ⟨_, congrArg (Option.map _) made, _, rfl⟩ rfl

theorem pathnameComes (lawful : http.Lawful) {headers : Headers http} (unreal : realAddr platform headers = none)
    (unforwarded : forwardedAddr platform headers = none) (path : List UInt8) :
    Comes platform headers (.socket (.unix (.pathname path))) (fun answer => answer = .socket (.unix (.pathname path))) ↔
      Printable platform http (.socket (.unix (.pathname path))) := by
  rw [comesPeer platform lawful unreal unforwarded]
  change (∀ c ∈ Utf8Text.lossy path, _) ∧ (∃ answer, RemoteAddr.fromStr platform (Utf8Text.lossy path) = some answer ∧ _) ↔ _
  constructor
  · rintro ⟨stands, answer, parsed, rfl⟩
    have notIp : ipText (Utf8Text.lossy path) = none := (fromStrIp platform parsed).symm
    rw [fromStrPath platform notIp] at parsed
    obtain ⟨addr, made, same⟩ := Option.map_eq_some_iff.mp parsed
    obtain ⟨unix, rfl, made⟩ := Option.bind_eq_some_iff.mp made
    cases same
    obtain ⟨whole, some_, noNul, room⟩ := fromPathnameIs.mp made
    exact ⟨unix, _, rfl, whole, some_, noNul, room, stands, notIp⟩
  · rintro ⟨unix, s, rfl, rfl, some_, noNul, room, stands, notIp⟩
    have made := fromPathnameIs.mpr ⟨rfl, some_, noNul, room⟩
    rw [Utf8Text.lossyEncode, fromStrPath _ notIp]
    exact ⟨stands, _, congrArg (Option.map _) made, rfl⟩

theorem peerKept (lawful : http.Lawful) (headers : Headers http) (peer : RemoteAddr) :
    Kept platform headers peer ↔
      (realAddr platform headers).isSome ∨ (forwardedAddr platform headers).isSome ∨ Printable platform http peer := by
  unfold Kept
  cases real : realAddr platform headers with
  | some found =>
    rw [comesReal platform real]
    exact iff_of_true (fun never => by cases never) (.inl rfl)
  | none =>
    cases forwarded : forwardedAddr platform headers with
    | some found =>
      rw [comesForwarded platform lawful real forwarded]
      exact iff_of_true (fun _ never => by cases never) (.inr (.inl rfl))
    | none =>
      have unused : (none : Option RemoteAddr).isSome ∨ (none : Option RemoteAddr).isSome ∨ Printable platform http peer ↔
          Printable platform http peer := by simp
      rw [unused]
      simp only [forall_const]
      by_cases isIp : peer.ip.isSome
      · rw [comesIpPeer platform lawful real forwarded isIp, denotesIp isIp]
        refine iff_of_true rfl ?_
        cases peer with
        | socket addr =>
          cases addr with
          | tcp | tlsTcp => trivial
          | unix addr => cases isIp
        | ipv4 ip | ipv6 ip => trivial
      · cases peer with
        | socket addr =>
          cases addr with
          | tcp | tlsTcp => exact absurd rfl isIp
          | unix addr =>
            cases addr with
            | pathname path => exact pathnameComes platform lawful real forwarded path
            | unnamed | abstractName name => exact unnamedComes platform lawful real forwarded rfl
        | ipv4 ip | ipv6 ip => exact absurd rfl isIp

end

def textValues : HeaderValues where
  Value := Text
  fromStr s := if s.all (fun c => (' ' ≤ c && c ≠ '\x7f') || c = '\t') then some s else none
  toStr s := if s.all (fun c => (' ' ≤ c && c ≤ '~') || c = '\t') then some s else none
  mayStand c := (' ' ≤ c && c ≤ '~') || c = '\t'

theorem textValuesLawful : textValues.Lawful where
  visible c low high := by simp [textValues, low, high]
  ascii c stands := by simpa [textValues] using stands
  carries s stands := by
    have accepted : s.all (fun c => (' ' ≤ c && c ≠ '\x7f') || c = '\t') = true := by
      refine List.all_eq_true.mpr fun c among => ?_
      have one := stands c among
      simp only [textValues, Bool.or_eq_true, Bool.and_eq_true, decide_eq_true_eq] at one ⊢
      refine one.imp_left fun visible => ⟨visible.1, fun same => ?_⟩
      exact absurd (same ▸ visible.2) (by decide)
    exact ⟨s, if_pos accepted, if_pos (List.all_eq_true.mpr stands)⟩
  faithful s t value made back := by
    simp only [textValues] at made back
    split at made
    · cases made
      split at back
      · exact (Option.some.inj back).symm
      · cases back
    · cases made
  shows value s back := by
    simp only [textValues] at back
    split at back
    · cases back
      exact List.all_eq_true.mp ‹_›
    · cases back

def linux : Unix := ⟨108, by decide⟩

def proxy : RemoteAddr := .socket (.tcp (.v4 ⟨⟨10, 0, 0, 1⟩, ⟨80, by decide⟩⟩))

theorem proxiedResolved : Resolved (some linux) (⟨none, some ", 192.0.2.7".toList⟩ : Headers textValues) proxy :=
  (clientResolved (some linux) textValuesLawful _ rfl).mpr (.inr ⟨rfl, .inl (by decide)⟩)

theorem unknownPassedOver : ¬Resolved (some linux) (⟨none, some "unknown, 192.0.2.7".toList⟩ : Headers textValues) proxy := by
  intro resolved
  have forwarded : forwardedAddr (some linux) (⟨none, some "unknown, 192.0.2.7".toList⟩ : Headers textValues) =
      some (.socket (.unix (.pathname (Utf8Text.encode "unknown".toList)))) := by decide
  have answered := resolved.forwarded rfl (.v4 ⟨192, 0, 2, 7⟩) (by decide)
  cases (comesForwarded (some linux) textValuesLawful rfl forwarded proxy _).mp answered

theorem socketFileKept : Kept (some linux) (⟨none, none⟩ : Headers textValues)
    (.socket (.unix (.pathname (Utf8Text.encode "/run/a.sock".toList)))) := by
  refine (peerKept (some linux) textValuesLawful _ _).mpr (.inr (.inr ⟨linux, _, rfl, rfl, by decide, by decide, by decide, ?_, by decide⟩))
  have all : "/run/a.sock".toList.all textValues.mayStand = true := by decide
  exact List.all_eq_true.mp all

theorem brokenNamePanics : ¬Kept (some linux) (⟨none, none⟩ : Headers textValues)
    (.socket (.unix (.pathname (Utf8Text.encode "/tmp/a\n".toList)))) := by
  rintro ⟨later, answer, set, _⟩
  change writeRealIp ⟨none, none⟩ (Utf8Text.lossy (Utf8Text.encode "/tmp/a\n".toList)) = some later at set
  rw [Utf8Text.lossyEncode] at set
  cases set

end Silent.ClientAddress
