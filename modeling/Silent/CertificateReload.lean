import Silent.StdPath

/-! The certificate store of `tls.rs` and its reloading. The builder reads the files and
guesses their format; whether the chain and the key are any good is asked of rustls only
when an acceptor is made for a connection. -/
namespace Silent.CertificateReload
open ByteText StdPath

abbrev Der := List UInt8

abbrev Error := List Text

inductive KeyDer where
  | pkcs8 (bytes : Der)
  | pkcs1 (bytes : Der)
  deriving DecidableEq

structure Tls (C : Type) where
  certs : List UInt8 → List (Except Text Der)
  pkcs8PrivateKeys : List UInt8 → List (Except Text Der)
  rsaPrivateKeys : List UInt8 → List (Except Text Der)
  withSingleCert : List Der → KeyDer → Except Text C

structure Disk where
  has : Text → Bool
  read : Text → Except Text (List UInt8)

structure CertificateStore where
  certChain : List Der
  keyDer : KeyDer
  clientRoot : Der
  deriving DecidableEq

structure CertificateStoreBuilder where
  certPath : Option Text
  keyPath : Option Text
  rootCaPath : Option Text

structure ServerConfig (C : Type) where
  config : C
  alpnProtocols : List (List UInt8)
  deriving DecidableEq

def ascii (s : String) : List UInt8 := s.toList.map (fun c => UInt8.ofNat c.toNat)

section
variable {C P : Type} (tls : Tls C) (rules : Rules P) (disk : Disk)

def looksLikePem (data : List UInt8) : Bool := (ascii "-----BEGIN").isPrefixOf data

def isPemPath (path : Text) : Bool := extension rules (rules.parse path) = some "pem".toList

def collect {A : Type} : List (Except Text A) → Except Text (List A)
  | [] => .ok []
  | .error err :: _ => .error err
  | .ok item :: rest => (collect rest).map (item :: ·)

def loadCertChain (path : Text) : Except Error (List Der) :=
  match disk.read path with
  | .error err => .error ["读取证书文件失败: ".toList ++ path, err]
  | .ok data =>
      if looksLikePem data || isPemPath rules path then
        match collect (tls.certs data) with
        | .error err => .error ["解析 PEM 证书失败".toList, err]
        | .ok certs => if certs = [] then .error ["PEM 证书文件为空: ".toList ++ path] else .ok certs
      else .ok [data]

def loadPrivateKey (path : Text) : Except Error KeyDer :=
  match disk.read path with
  | .error err => .error ["读取私钥文件失败: ".toList ++ path, err]
  | .ok data =>
      if looksLikePem data || isPemPath rules path then
        match collect (tls.pkcs8PrivateKeys data) with
        | .error err => .error ["解析 PKCS8 私钥失败".toList, err]
        | .ok keys =>
            match keys.getLast? with
            | some key => .ok (.pkcs8 key)
            | none =>
                match collect (tls.rsaPrivateKeys data) with
                | .error err => .error ["解析 RSA 私钥失败".toList, err]
                | .ok rsaKeys =>
                    match rsaKeys.getLast? with
                    | some key => .ok (.pkcs1 key)
                    | none => .error ["PEM 私钥文件不包含 PKCS8 或 RSA 私钥: ".toList ++ path]
      else .ok (.pkcs8 data)

def pushMissing : List Der → List Der → List Der
  | chain, [] => chain
  | chain, cert :: rest => pushMissing (if cert ∈ chain then chain else chain ++ [cert]) rest

def loadCertChainWithRoot (chain : List Der) (rootCaPath : Option Text) : Except Error (List Der × Der) :=
  match chain with
  | [] => .error ["证书链为空".toList]
  | leaf :: _ =>
      match rootCaPath with
      | none => .ok (chain, leaf)
      | some path =>
          if disk.has path then
            match loadCertChain tls rules disk path with
            | .error err => .error err
            | .ok rootChain => .ok (pushMissing chain rootChain, rootChain.head?.getD leaf)
          else .ok (chain, leaf)

def CertificateStoreBuilder.build (self : CertificateStoreBuilder) : Except Error CertificateStore :=
  match self.certPath, self.keyPath with
  | none, _ => .error ["未设置证书路径，请调用 cert_path".toList]
  | some _, none => .error ["未设置私钥路径，请调用 key_path".toList]
  | some certPath, some keyPath =>
      if disk.has certPath = false then .error ["证书文件不存在: ".toList ++ certPath]
      else if disk.has keyPath = false then .error ["私钥文件不存在: ".toList ++ keyPath]
      else
        match loadCertChain tls rules disk certPath with
        | .error err => .error err
        | .ok certChain =>
            match loadPrivateKey tls rules disk keyPath with
            | .error err => .error err
            | .ok keyDer =>
                match loadCertChainWithRoot tls rules disk certChain self.rootCaPath with
                | .error err => .error err
                | .ok (certChain, clientRoot) => .ok ⟨certChain, keyDer, clientRoot⟩

def CertificateStore.rustlsServerConfig (self : CertificateStore) (alpn : List (List UInt8)) :
    Except Text (ServerConfig C) :=
  match tls.withSingleCert self.certChain self.keyDer with
  | .error err => .error err
  | .ok config => .ok ⟨config, alpn⟩

-- `inner` is behind a lock, which a panic of its writer poisons.
structure ReloadableCertificateStore where
  inner : CertificateStore
  poisoned : Bool
  certPath : Text
  keyPath : Text
  rootCaPath : Option Text
  deriving DecidableEq

def ReloadableCertificateStore.fromPaths (certPath keyPath : Text) (rootCaPath : Option Text) :
    Except Error ReloadableCertificateStore :=
  match CertificateStoreBuilder.build tls rules disk ⟨some certPath, some keyPath, rootCaPath⟩ with
  | .error err => .error err
  | .ok store => .ok ⟨store, false, certPath, keyPath, rootCaPath⟩

def ReloadableCertificateStore.reload (self : ReloadableCertificateStore) : Except Error Unit × ReloadableCertificateStore :=
  match CertificateStoreBuilder.build tls rules disk ⟨some self.certPath, some self.keyPath, self.rootCaPath⟩ with
  | .error err => (.error err, self)
  | .ok store => (.ok (), if self.poisoned then self else {self with inner := store})

-- `none` is the panic of `expect`.
def ReloadableCertificateStore.tlsAcceptor (self : ReloadableCertificateStore) (alpn : List (List UInt8)) :
    Option (Except Text (ServerConfig C)) :=
  if self.poisoned then none else some (self.inner.rustlsServerConfig tls alpn)

def ReloadableCertificateStore.httpsAcceptor (self : ReloadableCertificateStore) : Option (Except Text (ServerConfig C)) :=
  self.tlsAcceptor tls [ascii "h2", ascii "http/1.1"]

def acceptStream (store : ReloadableCertificateStore) : Option (Except Text (ServerConfig C)) :=
  (store.httpsAcceptor tls).map (·.mapError ("reload tls acceptor failed: ".toList ++ ·))

def reloads (store : ReloadableCertificateStore) : List Disk → ReloadableCertificateStore
  | [] => store
  | disk :: rest => reloads (store.reload tls rules disk).2 rest

def builds (store : ReloadableCertificateStore) (disk : Disk) : Option CertificateStore :=
  match CertificateStoreBuilder.build tls rules disk ⟨some store.certPath, some store.keyPath, store.rootCaPath⟩ with
  | .error _ => none
  | .ok store => some store

def accepted (store : CertificateStore) : Bool := tls.withSingleCert store.certChain store.keyDer matches .ok _

def succeeds (store : ReloadableCertificateStore) : Bool := store.httpsAcceptor tls matches some (.ok _)

/- The store is that of the files: the chain of the certificate file, then the certificates
of the root file that are not in it, and the key. -/
structure Loaded (store : ReloadableCertificateStore) (new : CertificateStore) (chain roots : List Der) : Prop where
  certFile : loadCertChain tls rules disk store.certPath = .ok chain
  keyFile : loadPrivateKey tls rules disk store.keyPath = .ok new.keyDer
  rootFile : (∃ path, store.rootCaPath = some path ∧ disk.has path = true ∧ loadCertChain tls rules disk path = .ok roots) ∨
    (∀ path, store.rootCaPath = some path → disk.has path = false) ∧ roots = []
  whole : new.certChain = pushMissing chain roots

end

section
variable {C P : Type} {tls : Tls C} {rules : Rules P} {disk : Disk}

theorem withRootLoaded {chain whole : List Der} {root : Der} {rootCaPath : Option Text}
    (made : loadCertChainWithRoot tls rules disk chain rootCaPath = .ok (whole, root)) :
    ∃ roots, ((∃ path, rootCaPath = some path ∧ disk.has path = true ∧ loadCertChain tls rules disk path = .ok roots) ∨
      (∀ path, rootCaPath = some path → disk.has path = false) ∧ roots = []) ∧ whole = pushMissing chain roots := by
  unfold loadCertChainWithRoot at made
  split at made
  · contradiction
  · rename_i leaf rest
    split at made
    · cases made
      exact ⟨[], .inr ⟨nofun, rfl⟩, rfl⟩
    · rename_i path
      split at made
      · rename_i present
        split at made
        · contradiction
        · rename_i roots loaded
          cases made
          exact ⟨roots, .inl ⟨path, rfl, present, loaded⟩, rfl⟩
      · rename_i absent
        cases made
        refine ⟨[], .inr ⟨fun other same => ?_, rfl⟩, rfl⟩
        cases Option.some.inj same
        simpa using absent

theorem builtLoaded {store : ReloadableCertificateStore} {new : CertificateStore}
    (built : builds tls rules store disk = some new) : ∃ chain roots, Loaded tls rules disk store new chain roots := by
  unfold builds at built
  split at built
  · contradiction
  · rename_i made
    cases Option.some.inj built
    simp only [CertificateStoreBuilder.build] at made
    split at made
    · contradiction
    · split at made
      · contradiction
      · split at made
        · contradiction
        · rename_i chain loadedChain
          split at made
          · contradiction
          · rename_i key loadedKey
            split at made
            · contradiction
            · rename_i whole root loadedRoot
              cases made
              obtain ⟨roots, source, rfl⟩ := withRootLoaded loadedRoot
              exact ⟨chain, roots, loadedChain, loadedKey, source, rfl⟩

theorem reloadCases (tls : Tls C) (rules : Rules P) (disk : Disk) {store : ReloadableCertificateStore}
    (sound : store.poisoned = false) :
    (∃ new, builds tls rules store disk = some new ∧ store.reload tls rules disk = (.ok (), {store with inner := new})) ∨
      ∃ err, builds tls rules store disk = none ∧ store.reload tls rules disk = (.error err, store) := by
  unfold builds ReloadableCertificateStore.reload
  cases made : CertificateStoreBuilder.build tls rules disk ⟨some store.certPath, some store.keyPath, store.rootCaPath⟩ with
  | error err => exact .inr ⟨err, rfl, rfl⟩
  | ok new => exact .inl ⟨new, rfl, by simp [sound]⟩

theorem reloadsInner (tls : Tls C) (rules : Rules P) {store : ReloadableCertificateStore} (sound : store.poisoned = false)
    (disks : List Disk) : reloads tls rules store disks =
      {store with inner := ((disks.filterMap (builds tls rules store)).getLast?).getD store.inner} := by
  induction disks generalizing store with
  | nil => rfl
  | cons disk rest ih =>
    unfold reloads
    rcases reloadCases tls rules disk sound with ⟨new, built, done⟩ | ⟨err, built, done⟩
    · have same : builds tls rules {store with inner := new} = builds tls rules store := rfl
      rw [done, @ih {store with inner := new} sound, same, List.filterMap_cons_some built, List.getLast?_cons]
      rfl
    · rw [done, ih sound, List.filterMap_cons_none built]

theorem succeedsIff (store : ReloadableCertificateStore) :
    succeeds tls store = true ↔ store.poisoned = false ∧ accepted tls store.inner = true := by
  unfold succeeds accepted ReloadableCertificateStore.httpsAcceptor ReloadableCertificateStore.tlsAcceptor
    CertificateStore.rustlsServerConfig
  cases store.poisoned <;> cases tls.withSingleCert store.inner.certChain store.inner.keyDer <;> simp

end

/- After a sequence of calls: a further call that fails changes nothing, one that succeeds
leaves the store of the files it found, and acceptors are made exactly if rustls accepts what
the last successful call has loaded. -/
structure Rotated {C P : Type} (tls : Tls C) (rules : Rules P) (store : ReloadableCertificateStore) (disks : List Disk) :
    Prop where
  kept : ∀ disk err, ((reloads tls rules store disks).reload tls rules disk).1 = .error err →
    ((reloads tls rules store disks).reload tls rules disk).2 = reloads tls rules store disks
  installed : ∀ disk, ((reloads tls rules store disks).reload tls rules disk).1 = .ok () →
    ∃ new chain roots, ((reloads tls rules store disks).reload tls rules disk).2 = {store with inner := new} ∧
      Loaded tls rules disk store new chain roots
  accepts : succeeds tls (reloads tls rules store disks) = true ↔
    ∀ last, (disks.filterMap (builds tls rules store)).getLast? = some last → accepted tls last = true
  listens : (∃ acceptor, acceptStream tls (reloads tls rules store disks) = some (.ok acceptor)) ↔
    succeeds tls (reloads tls rules store disks) = true

theorem rotationKeeps {C P : Type} (tls : Tls C) (rules : Rules P) {store : ReloadableCertificateStore}
    (fine : succeeds tls store = true) (disks : List Disk) : Rotated tls rules store disks := by
  obtain ⟨sound, good⟩ := (succeedsIff store).mp fine
  have now := reloadsInner tls rules sound disks
  have sound' : (reloads tls rules store disks).poisoned = false := by
    rw [now]
    exact sound
  refine ⟨fun disk err failed => ?_, fun disk done => ?_, ?_, ?_⟩
  · rcases reloadCases tls rules disk sound' with ⟨new, built, did⟩ | ⟨_, built, did⟩
    · rw [did] at failed
      cases failed
    · rw [did]
  · rcases reloadCases tls rules disk sound' with ⟨new, built, did⟩ | ⟨_, built, did⟩
    · have built' : builds tls rules store disk = some new := by
        rw [now] at built
        exact built
      obtain ⟨chain, roots, loaded⟩ := builtLoaded built'
      exact ⟨new, chain, roots, by rw [did, now], loaded⟩
    · rw [did] at done
      cases done
  · rw [succeedsIff, now]
    cases last : (disks.filterMap (builds tls rules store)).getLast? with
    | none => simp [sound, good]
    | some new => simp [sound]
  · unfold acceptStream succeeds
    cases made : (reloads tls rules store disks).httpsAcceptor tls with
    | none => simp
    | some result => cases result <;> simp [Except.mapError]

def serverCert : Der := [48, 3, 2, 1, 7]

def serverKey : Der := [48, 3, 2, 1, 9]

def onePair : Tls Unit where
  certs _ := []
  pkcs8PrivateKeys _ := []
  rsaPrivateKeys _ := []
  withSingleCert chain key :=
    if chain.head? = some serverCert ∧ key = .pkcs8 serverKey then .ok () else .error "invalid certificate".toList

def served : ReloadableCertificateStore :=
  ⟨⟨[serverCert], .pkcs8 serverKey, serverCert⟩, false, "server.crt".toList, "server.key".toList, none⟩

def holding (cert key : Der) : Disk where
  has _ := true
  read path := if path = "server.crt".toList then .ok cert else .ok key

theorem rotationKeepsServed :
    ReloadableCertificateStore.fromPaths onePair unix (holding serverCert serverKey) "server.crt".toList "server.key".toList none =
      .ok served ∧ succeeds onePair served = true ∧
    Rotated onePair unix served [holding serverCert serverKey, holding (ascii "-----BEGIN") serverKey] :=
  ⟨by decide, by decide, rotationKeeps onePair unix (by decide) _⟩

theorem garbageRefusesAll : succeeds onePair served = true ∧
    (served.reload onePair unix (holding (ascii "CERTBYTES") (ascii "KEYBYTES"))).1 = .ok () ∧
    succeeds onePair (served.reload onePair unix (holding (ascii "CERTBYTES") (ascii "KEYBYTES"))).2 = false ∧
    acceptStream onePair (served.reload onePair unix (holding (ascii "CERTBYTES") (ascii "KEYBYTES"))).2 =
      some (.error "reload tls acceptor failed: invalid certificate".toList) :=
  ⟨by decide, by decide, by decide, by decide⟩

end Silent.CertificateReload
