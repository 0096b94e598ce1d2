import OCF.Core.Resource
import OCF.Foundations.Text

/-!
# Renewing certificates

The provider has `certbot` obtain or renew a certificate and loads what lies in its live directory.
What `certbot` does is a parameter of each call: it may replace the files of the directory, or find
the certificate not yet due, keep it and exit successfully. Times and durations are integers.

A loaded certificate is given an expiry of its own, the fallback validity from the time of the load,
since the expiry in the file is not read. A certificate that was kept therefore looks new:
`neverLate_iff` says for which histories of calls the last certificate is renewed in time.
-/

namespace OCF.Lb

/-! ## The provider -/

/-- A managed certificate. -/
structure Certificate where
  domains : List String
  notAfter : ℤ
  pemChain : String
  pemKey : String
  deriving DecidableEq

/-- Seconds until the certificate expires. -/
def Certificate.timeUntilExpiry (cert : Certificate) (now : ℤ) : ℤ := cert.notAfter - now

/-- How `certbot` answers the challenge. -/
inductive CertbotMode
  | standalone
  | webroot

/-- The flag of a mode. -/
def CertbotMode.flag : CertbotMode → String
  | .standalone => "--standalone"
  | .webroot => "--webroot"

/-- Days in seconds. -/
def days (n : ℤ) : ℤ := n * 86400

/-- A provider that drives `certbot`. -/
structure LetsEncryptProvider where
  accountEmail : String
  certbotPath : String
  mode : CertbotMode
  renewalWindow : ℤ
  fallbackValidity : ℤ

/-- The provider with its defaults. -/
def LetsEncryptProvider.new (accountEmail : String) : LetsEncryptProvider :=
  ⟨accountEmail, "certbot", .standalone, days 30, days 90⟩

/-- The files of the host: what is read from a path, or why it cannot be. -/
abbrev Files := String → Except String String

/-- A run of `certbot`: it cannot be spawned, or it exits with what it printed; and what it does to
the files. -/
structure CertbotRun where
  output : Except String (Bool × String × String)
  files : Files → Files

/-- What the program at a path does with some arguments. -/
abbrev Certbot := String → List String → CertbotRun

/-- The expiry that the chain states. It is not read. -/
def notAfterFromChain (_pemChain : String) : Option ℤ := none

/-- Where `certbot` keeps the certificate of a domain. -/
def liveDir (domain : String) : String := "/etc/letsencrypt/live/" ++ domain

namespace LetsEncryptProvider

variable (p : LetsEncryptProvider)

/-- The certificate is inside its renewal window. -/
def needsRenewal (cert : Certificate) (now : ℤ) : Bool := cert.timeUntilExpiry now ≤ p.renewalWindow

/-- Run `certbot`: what it printed, and the files afterwards. -/
def runCertbot (certbot : Certbot) (args : List String) (files : Files) : Result String × Files :=
  let r := certbot p.certbotPath args
  match r.output with
  | .error e => (.error (.provider "acme" ("certbot not found: " ++ e)), r.files files)
  | .ok (true, stdout, _) => (.ok stdout, r.files files)
  | .ok (false, stdout, stderr) =>
    (.error (.provider "acme" ("certbot failed: " ++
      if Text.trimmed stderr = "" then Text.trimmed stdout else Text.trimmed stderr)), r.files files)

/-- Load the certificate in the live directory of a domain. -/
def loadCertificate (domains : List String) (domain : String) (now : ℤ) (files : Files) :
    Result Certificate :=
  match files (liveDir domain ++ "/fullchain.pem") with
  | .error e => .error (.provider "acme" ("read fullchain.pem: " ++ e))
  | .ok pemChain =>
    match files (liveDir domain ++ "/privkey.pem") with
    | .error e => .error (.provider "acme" ("read privkey.pem: " ++ e))
    | .ok pemKey =>
      .ok ⟨domains, (notAfterFromChain pemChain).getD (now + p.fallbackValidity), pemChain, pemKey⟩

/-- Run `certbot` and load what it left. -/
def runAndLoad (certbot : Certbot) (args domains : List String) (primary : String) (now : ℤ)
    (files : Files) : Result Certificate × Files :=
  match p.runCertbot certbot args files with
  | (.error e, files) => (.error e, files)
  | (.ok _, files) => (p.loadCertificate domains primary now files, files)

/-- Obtain a certificate. -/
def issue (domains : List String) (certbot : Certbot) (now : ℤ) (files : Files) :
    Result Certificate × Files :=
  match domains with
  | [] => (.error (.invalidArgument "certificate requires at least one domain"), files)
  | primary :: _ =>
    p.runAndLoad certbot
      (["certonly", "--non-interactive", "--agree-tos", "-m", p.accountEmail, p.mode.flag] ++
        domains.flatMap fun d => ["-d", d]) domains primary now files

/-- Renew a certificate. -/
def renew (cert : Certificate) (certbot : Certbot) (now : ℤ) (files : Files) :
    Result Certificate × Files :=
  match cert.domains with
  | [] => (.error (.invalidArgument "certificate has no domains to renew"), files)
  | primary :: _ =>
    p.runAndLoad certbot ["renew", "--cert-name", primary, "--non-interactive"] cert.domains
      primary now
      files

end LetsEncryptProvider

/-! ## Histories -/

/-- What is asked of the provider. -/
inductive Request
  | issue (domains : List String)
  | renew (cert : Certificate)

/-- A call of the provider: the request, the time at which it returns, and what `certbot` does. -/
structure Call where
  request : Request
  now : ℤ
  certbot : Certbot

/-- What a call returns, and the files afterwards. -/
def Call.answer (p : LetsEncryptProvider) (c : Call) (files : Files) : Result Certificate × Files :=
  match c.request with
  | .issue domains => p.issue domains c.certbot c.now files
  | .renew cert => p.renew cert c.certbot c.now files

/-- The files of the host, and the certificate that was last returned with the time of its return.
-/
structure CertState where
  files : Files
  last : Option (ℤ × Certificate)

/-- A call, after which the last certificate returned is kept. -/
def CertState.step (p : LetsEncryptProvider) (s : CertState) (c : Call) : CertState :=
  match c.answer p s.files with
  | (.ok cert, files) => ⟨files, some (c.now, cert)⟩
  | (.error _, files) => ⟨files, s.last⟩

/-- The certificate that a history of calls returned last. -/
def lastReturned (p : LetsEncryptProvider) (files : Files) (calls : List Call) :
    Option (ℤ × Certificate) :=
  (calls.foldl (CertState.step p) ⟨files, none⟩).last

/-- From its return on, whenever the certificate that was returned last expires within the renewal
window, it is found to need renewal. The expiry is what the chain states. -/
def NeverLate (expiry : String → ℤ) (p : LetsEncryptProvider) (files : Files) (calls : List Call) :
    Prop :=
  ∀ t cert, lastReturned p files calls = some (t, cert) → ∀ now, t ≤ now →
    expiry cert.pemChain - now ≤ p.renewalWindow → p.needsRenewal cert now

/-! ## What the calls find -/

/-- The domains that a call is about. -/
def Call.domains (c : Call) : List String :=
  match c.request with
  | .issue domains => domains
  | .renew cert => cert.domains

/-- The arguments with which a call runs `certbot`. -/
def Call.args (p : LetsEncryptProvider) (c : Call) (primary : String) : List String :=
  match c.request with
  | .issue domains =>
    ["certonly", "--non-interactive", "--agree-tos", "-m", p.accountEmail, p.mode.flag] ++
      domains.flatMap fun d => ["-d", d]
  | .renew _ => ["renew", "--cert-name", primary, "--non-interactive"]

/-- The chain that a run leaves in the live directory of a domain, if it exits successfully and
there is a chain and a key. -/
def CertbotRun.chain (r : CertbotRun) (domain : String) (files : Files) : Option String :=
  match r.output, r.files files (liveDir domain ++ "/fullchain.pem"),
      r.files files (liveDir domain ++ "/privkey.pem") with
  | .ok (true, _, _), .ok pemChain, .ok _ => some pemChain
  | _, _, _ => none

/-- The chain that `certbot` leaves for a call to load, and the files. -/
def Call.left (p : LetsEncryptProvider) (c : Call) (files : Files) : Option String × Files :=
  match c.domains with
  | [] => (none, files)
  | primary :: _ =>
    let r := c.certbot p.certbotPath (c.args p primary)
    (r.chain primary files, r.files files)

/-- Remember the chain that a call finds. -/
def Call.remember (p : LetsEncryptProvider) (s : Files × Option (ℤ × String)) (c : Call) :
    Files × Option (ℤ × String) :=
  ((c.left p s.1).2, ((c.left p s.1).1.map (c.now, ·)).or s.2)

/-- The time of the last call that found a certificate, and the chain it found. -/
def lastLeft (p : LetsEncryptProvider) (files : Files) (calls : List Call) : Option (ℤ × String) :=
  (calls.foldl (Call.remember p) (files, none)).2

variable {p : LetsEncryptProvider}

/-- Running `certbot` and loading: the files are what it left, and there is a certificate when there
is a chain; its expiry is counted from the load. -/
theorem runAndLoad_eq (certbot : Certbot) (args domains : List String) (primary : String) (now : ℤ)
    (files : Files) :
    (p.runAndLoad certbot args domains primary now files).2 =
        (certbot p.certbotPath args).files files ∧
      (p.runAndLoad certbot args domains primary now files).1.toOption.map
          (fun cert => (cert.notAfter, cert.pemChain)) =
        ((certbot p.certbotPath args).chain primary files).map (now + p.fallbackValidity, ·) := by
  generalize hr : certbot p.certbotPath args = r
  rcases hout : r.output with e | ⟨success, stdout, stderr⟩
  · simp [LetsEncryptProvider.runAndLoad, LetsEncryptProvider.runCertbot, CertbotRun.chain, hr, hout,
      Except.toOption]
  · cases success with
    | false =>
      simp [LetsEncryptProvider.runAndLoad, LetsEncryptProvider.runCertbot, CertbotRun.chain, hr,
        hout,
        Except.toOption]
    | true =>
      rcases hchain : r.files files (liveDir primary ++ "/fullchain.pem") with e | pemChain
      · simp [LetsEncryptProvider.runAndLoad, LetsEncryptProvider.runCertbot, CertbotRun.chain,
          LetsEncryptProvider.loadCertificate, hr, hout, hchain, Except.toOption]
      · rcases hkey : r.files files (liveDir primary ++ "/privkey.pem") with e | pemKey <;>
          simp [LetsEncryptProvider.runAndLoad, LetsEncryptProvider.runCertbot, CertbotRun.chain,
            LetsEncryptProvider.loadCertificate, notAfterFromChain, hr, hout, hchain, hkey,
            Except.toOption]

/-- A call answers with what `certbot` left. -/
theorem Call.answer_eq (c : Call) (files : Files) :
    (c.answer p files).2 = (c.left p files).2 ∧
      (c.answer p files).1.toOption.map (fun cert => (cert.notAfter, cert.pemChain)) =
        (c.left p files).1.map (c.now + p.fallbackValidity, ·) := by
  obtain ⟨request, now, certbot⟩ := c
  cases request with
  | issue domains =>
    cases domains with
    | nil => exact ⟨rfl, rfl⟩
    | cons primary rest => exact runAndLoad_eq ..
  | renew cert =>
    obtain ⟨domains, notAfter, pemChain, pemKey⟩ := cert
    cases domains with
    | nil => exact ⟨rfl, rfl⟩
    | cons primary rest => exact runAndLoad_eq ..

/-- A certificate was returned at the remembered time with the remembered chain, and its expiry is
counted from then. -/
def Agrees (p : LetsEncryptProvider) (last : Option (ℤ × Certificate)) (left : Option (ℤ × String)) :
    Prop :=
  last.map (fun l => (l.1, l.2.notAfter, l.2.pemChain)) =
    left.map fun l => (l.1, l.1 + p.fallbackValidity, l.2)

/-- One call: what is returned last agrees with what was found last. -/
theorem step_agrees {s : CertState} {left : Option (ℤ × String)} (h : Agrees p s.last left)
    (c : Call) :
    (s.step p c).files = (Call.remember p (s.files, left) c).1 ∧
      Agrees p (s.step p c).last (Call.remember p (s.files, left) c).2 := by
  obtain ⟨hfiles, hchain⟩ := c.answer_eq (p := p) s.files
  rcases hans : c.answer p s.files with ⟨e | cert, files'⟩
  · rw [hans] at hfiles hchain
    have hnone : (c.left p s.files).1 = none := by simpa [Except.toOption] using hchain
    refine ⟨by simpa [CertState.step, hans, Call.remember] using hfiles, ?_⟩
    simpa [CertState.step, hans, Call.remember, hnone] using h
  · rw [hans] at hfiles hchain
    obtain ⟨chain, hleft, hcert⟩ := Option.map_eq_some_iff.1 hchain.symm
    obtain ⟨hafter, rfl⟩ := Prod.mk.inj hcert
    refine ⟨by simpa [CertState.step, hans, Call.remember] using hfiles, ?_⟩
    simp [CertState.step, hans, Call.remember, hleft, Agrees, hafter]

theorem foldl_agrees (calls : List Call) {s : CertState} {left : Option (ℤ × String)}
    (h : Agrees p s.last left) :
    Agrees p (calls.foldl (CertState.step p) s).last
      (calls.foldl (Call.remember p) (s.files, left)).2 := by
  induction calls generalizing s left with
  | nil => exact h
  | cons c calls ih =>
    obtain ⟨hfiles, hagrees⟩ := step_agrees h c
    have hrest := ih hagrees
    rw [hfiles] at hrest
    exact hrest

/-- What is returned last is what was found last, with an expiry that is counted from the load. -/
theorem lastReturned_agrees (files : Files) (calls : List Call) :
    Agrees p (lastReturned p files calls) (lastLeft p files calls) := foldl_agrees calls rfl

/-- An assumed expiry is never late for a true one if and only if it is no later, or it is inside
the window from the start. -/
theorem forall_window_iff {t validity window expiry : ℤ} :
    (∀ now, t ≤ now → expiry - now ≤ window → t + validity - now ≤ window) ↔
      validity ≤ window ∨ t + validity ≤ expiry := by
  constructor
  · intro h
    by_contra hlate
    obtain ⟨hwindow, hexpiry⟩ := not_or.1 hlate
    -- The later of the return and the true start of the window is too early for the assumed one.
    have hnow := h (max t (expiry - window)) (le_max_left ..) (by omega)
    omega
  · rintro (h | h) now ht hexp <;> omega

/-- The certificate that a history of calls returned last is renewed in time if and only if the
fallback validity is within the renewal window, or the chain that the last call found expires no
earlier than the fallback validity from that call. -/
theorem neverLate_iff (expiry : String → ℤ) (p : LetsEncryptProvider) (files : Files)
    (calls : List Call) :
    NeverLate expiry p files calls ↔
      ∀ t pemChain, lastLeft p files calls = some (t, pemChain) →
        p.fallbackValidity ≤ p.renewalWindow ∨ t + p.fallbackValidity ≤ expiry pemChain := by
  have hagrees := lastReturned_agrees (p := p) files calls
  unfold NeverLate
  cases hlast : lastReturned p files calls with
  | none =>
    rw [hlast] at hagrees
    have hnone : lastLeft p files calls = none := by simpa [Agrees] using hagrees.symm
    simp [hnone]
  | some l =>
    rw [hlast] at hagrees
    obtain ⟨t, cert⟩ := l
    obtain ⟨⟨t', pemChain⟩, hleft, heq⟩ := Option.map_eq_some_iff.1 hagrees.symm
    obtain ⟨rfl, hafter, rfl⟩ : t' = t ∧ t' + p.fallbackValidity = cert.notAfter ∧
        pemChain = cert.pemChain := by
      simpa using heq
    have hneeds : ∀ now,
        p.needsRenewal cert now ↔ t' + p.fallbackValidity - now ≤ p.renewalWindow := by
      intro now
      rw [LetsEncryptProvider.needsRenewal, Certificate.timeUntilExpiry, hafter]
      exact decide_eq_true_iff
    rw [hleft]
    constructor
    · rintro h t pemChain ⟨⟩
      exact forall_window_iff.1 fun now ht hexp => (hneeds now).1 (h _ _ rfl now ht hexp)
    · rintro h t cert ⟨⟩ now ht hexp
      exact (hneeds now).2 (forall_window_iff.2 (h _ _ rfl) now ht hexp)

/-! ### A certificate that is kept -/

/-- The live directory of `example.org` with a chain and a key. -/
def liveFiles : Files := fun path =>
  if path = liveDir "example.org" ++ "/fullchain.pem" then .ok "CHAIN"
  else if path = liveDir "example.org" ++ "/privkey.pem" then .ok "KEY"
  else .error "No such file or directory (os error 2)"

/-- `certbot` issues a certificate on day 0, and keeps it on day 50. -/
def keptCalls : List Call :=
  [⟨.issue ["example.org"], 0, fun _ _ => ⟨.ok (true, "", ""), fun _ => liveFiles⟩⟩,
    ⟨.renew ⟨["example.org"], days 90, "CHAIN", "KEY"⟩, days 50,
      fun _ _ => ⟨.ok (true, "", ""), id⟩⟩]

/-- The certificate expires on day 90 and counts as good until day 140: five days before it expires
it is not found to need renewal. -/
theorem kept_certificate_late :
    lastReturned (.new "admin@example.com") (fun _ => .error "") keptCalls =
        some (days 50, ⟨["example.org"], days 140, "CHAIN", "KEY"⟩) ∧
      ¬ NeverLate (fun _ => days 90) (.new "admin@example.com") (fun _ => .error "") keptCalls := by
  have hlast : lastReturned (.new "admin@example.com") (fun _ => .error "") keptCalls =
      some (days 50, ⟨["example.org"], days 140, "CHAIN", "KEY"⟩) := by
    decide +kernel
  refine ⟨hlast, fun h => ?_⟩
  have hneeds := h _ _ hlast (days 85) (by decide) (by decide)
  revert hneeds
  decide

end OCF.Lb
