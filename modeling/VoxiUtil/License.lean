import VoxiUtil.Err
import VoxiUtil.File

/-!
The license files of `license.c`. OpenSSL and the system are parameters; a failed
assertion, a null certificate and a format without its argument give `none`.
-/
namespace VoxiUtil.License
open VoxiUtil.CString VoxiUtil.Err VoxiUtil.Stdio VoxiUtil.File

structure SoftwareLicense where
  serialNumber : Int32
  licensee : Text
  expiryDate : Int
  product : Text

/-- What `EVP_VerifyFinal` and `X509_verify` say of a signature. -/
inductive Verification | correct | incorrect | failed
deriving DecidableEq

/-- The `int` that stands for it. -/
def Verification.code : Verification → Int32
  | .correct => 1
  | .incorrect => 0
  | .failed => -1

/-- What is used of OpenSSL: `PEM_read_X509`, with how many bytes it reads,
    `X509_PUBKEY_get`, `EVP_PKEY_size` and the two verifications. -/
structure OpenSsl (X509 PublicKey : Type) where
  pemReadX509 : Text → Option X509 × Nat
  getPublicKey : X509 → Option PublicKey
  pkeySize : PublicKey → Nat
  verifyFinal : Text → Text → PublicKey → Verification
  x509Verify : X509 → PublicKey → Verification

/-- What is used of the system. `buf` and `buf2` are what the buffers of these names hold
    before: `buf` up to its first NUL, `buf2` from its fifth byte on. -/
structure System where
  voxiIsiDir : Option Text
  fopen : Text → Option Text
  errno : Int32
  strerror : Text
  buf : Text
  buf2 : Text
  mktime : Int32 → Int32 → Int32 → Int
  time : Int
  ctime : Int → Text

/-- What `license_read` has when it comes to the verifications, with the line of the date. -/
structure Parsed (X509 PublicKey : Type) where
  license : SoftwareLicense
  expiry : Text
  certificate : X509
  key : PublicKey
  signedPart : Text
  signature : Text

def licenseFileMaxLineLength : Nat := 1024

def pathConcatDir (dir string : Text) : Text := dir ++ [byte '/'] ++ string

section
variable {X509 PublicKey : Type} (openSsl : OpenSsl X509 PublicKey) (system : System)

/-- The first of the places of a license file where there is one. -/
def openLicense (fileName : Text) : Option Text :=
  let licenseFileName := pathConcatDir (lit "licenses") fileName
  [fileName, pathConcatDir (system.voxiIsiDir.getD (lit "..")) licenseFileName, pathConcatDir (lit "..") licenseFileName].findSome?
    system.fopen

/-- `file_readLine` and the assertion behind it, with the string in the buffer. -/
def readLine (file : FILE) (buf : Text) : Option (Text × FILE) :=
  (fileReadLine file buf (licenseFileMaxLineLength + 1) system.errno).bind fun (err, buf, file) =>
    if err = 0 then some (cString buf, file) else none

/-- `mktime` of a date, whose year is read from `year`. -/
def dateOf (year line : Text) : Int :=
  system.mktime (atoi year - 1900) (atoi ((line.drop 4).take 2) - 1) (atoi ((line.drop 6).take 2))

/-- The date of a line, as it is written. -/
def writtenDate (line : Text) : Int := dateOf system (line.take 4) line

/-- The date as it is read: no NUL is put behind the four bytes of the year in `buf2`. -/
def readDate (line : Text) : Int := dateOf system (cString (line.take 4 ++ system.buf2)) line

/-- `license_read` up to the verifications. -/
def parseLicense (content : Text) : Option (Except Error (Parsed X509 PublicKey)) := do
  let (version, file) ← readLine system ⟨content, false⟩ system.buf
  if atoi version ≠ 3 then
    some (.error (errNew .unknown 0 none
      (lit "License file file format version is " ++ version ++ lit ", only version 3 supported.")))
  else
    let (serial, file) ← readLine system file version
    let (licensee, file) ← readLine system file serial
    let (expiry, file) ← readLine system file licensee
    if expiry.length ≠ 8 then none
    else
      let (product, file) ← readLine system file expiry
      let (certificate, count) := openSsl.pemReadX509 file.rest
      let certificate ← certificate
      let key ← openSsl.getPublicKey certificate
      let behind := file.rest.drop count
      let filePtr := content.length - behind.length
      let (signature, _) ← fileReadHexAsBinary (openSsl.pkeySize key) { file with rest := behind }
      if filePtr = 0 then none
      else
        some (.ok ⟨⟨atoi serial, licensee, readDate system expiry, product⟩, expiry, certificate, key, content.take filePtr,
          signature⟩)

/-- The end of `license_read`, which looks whether a verification is 0. -/
def verifyLicense (publicKey : PublicKey) (parsed : Parsed X509 PublicKey) : Except Error SoftwareLicense :=
  if (openSsl.verifyFinal parsed.signedPart parsed.signature parsed.key).code = 0 then
    .error (errNew .unknown 0 none (lit "Invalid License"))
  else if (openSsl.x509Verify parsed.certificate publicKey).code = 0 then
    .error (errNew .unknown 0 none (lit "Invalid VLCA License"))
  else .ok parsed.license

def licenseRead (fileName : Text) (publicKey : PublicKey) : Option (Except Error SoftwareLicense) :=
  match openLicense system fileName with
  | none =>
    some (.error (errNew .unknown 0 (some (errErrno system.errno system.strerror))
      (lit "Failed to open the license file '" ++ fileName ++ lit "'.")))
  | some content => (parseLicense openSsl system content).map fun parsed => parsed.bind (verifyLicense openSsl publicKey)

/-- `license_isValid`: the reason why the license is not. -/
def licenseIsValid (license : SoftwareLicense) (product : Text) : Option Text :=
  if license.expiryDate < system.time then
    some ((lit "License expired on " ++ system.ctime license.expiryDate ++ lit ", it is now " ++ system.ctime system.time ++
      lit ".\n").take 1023)
  else if strcaseEq license.product product = false then some (lit "License mismatch.")
  else none

/-- `license_checkProductLicense`. -/
def licenseCheckProductLicense (certificate : X509) (productName licenseFilename : Text) : Option (Option Error) :=
  (openSsl.getPublicKey certificate).bind fun voxiRootCAPublicKey =>
    (licenseRead openSsl system licenseFilename voxiRootCAPublicKey).bind fun read =>
      match read with
      | .error error => some (some error)
      | .ok license =>
        match licenseIsValid system license productName with
        | none => some none
        | some reason =>
          (vsnprintfBare errBuffSize reason).map fun description =>
            some (errNew .app 0 (some (errNew .app 0 none description)) (lit "License invalid."))

/-- A license file is there and can be read up to the verifications. -/
def Reads (licenseFilename : Text) (parsed : Parsed X509 PublicKey) : Prop :=
  ∃ content, openLicense system licenseFilename = some content ∧ parseLicense openSsl system content = some (.ok parsed)

/-- Only a license is accepted that both verifications found correct, that is for the
    product, and whose date is not before the current time. -/
def OnlyVerified (certificate : X509) (productName licenseFilename : Text) : Prop :=
  licenseCheckProductLicense openSsl system certificate productName licenseFilename = some none →
    ∃ parsed publicKey, Reads openSsl system licenseFilename parsed ∧ openSsl.getPublicKey certificate = some publicKey ∧
      openSsl.verifyFinal parsed.signedPart parsed.signature parsed.key = .correct ∧
      openSsl.x509Verify parsed.certificate publicKey = .correct ∧
      strcaseEq parsed.license.product productName = true ∧ system.time ≤ writtenDate system parsed.expiry

/-- No verification of a license for the product, unexpired by the date as it was read,
    fails unless the other one finds it incorrect; and a license for the product with no
    incorrect verification that has expired is read as one that has. -/
def Decided (certificate : X509) (productName licenseFilename : Text) : Prop :=
  ∀ parsed publicKey, Reads openSsl system licenseFilename parsed → openSsl.getPublicKey certificate = some publicKey →
    strcaseEq parsed.license.product productName = true →
    (system.time ≤ parsed.license.expiryDate →
      (openSsl.verifyFinal parsed.signedPart parsed.signature parsed.key = .failed →
        openSsl.x509Verify parsed.certificate publicKey = .incorrect) ∧
      (openSsl.x509Verify parsed.certificate publicKey = .failed →
        openSsl.verifyFinal parsed.signedPart parsed.signature parsed.key = .incorrect)) ∧
    (openSsl.verifyFinal parsed.signedPart parsed.signature parsed.key ≠ .incorrect →
      openSsl.x509Verify parsed.certificate publicKey ≠ .incorrect →
      writtenDate system parsed.expiry < system.time → parsed.license.expiryDate < system.time)

variable {openSsl system} {certificate : X509} {productName licenseFilename : Text}

theorem code_eq_zero (verification : Verification) : verification.code = 0 ↔ verification = .incorrect := by
  cases verification <;> decide

theorem isValid_iff {license : SoftwareLicense} : licenseIsValid system license productName = none ↔
    system.time ≤ license.expiryDate ∧ strcaseEq license.product productName = true := by
  unfold licenseIsValid
  by_cases expired : license.expiryDate < system.time
  · rw [if_pos expired]
    simp only [reduceCtorEq, false_iff, not_and]
    intro later
    omega
  · rw [if_neg expired]
    simp only [Int.not_lt.mp expired, true_and]
    cases strcaseEq license.product productName <;> simp

theorem verify_iff {publicKey : PublicKey} {parsed : Parsed X509 PublicKey} {license : SoftwareLicense} :
    verifyLicense openSsl publicKey parsed = .ok license ↔
      openSsl.verifyFinal parsed.signedPart parsed.signature parsed.key ≠ .incorrect ∧
        openSsl.x509Verify parsed.certificate publicKey ≠ .incorrect ∧ license = parsed.license := by
  unfold verifyLicense
  simp only [code_eq_zero]
  by_cases forged : openSsl.verifyFinal parsed.signedPart parsed.signature parsed.key = .incorrect
  · simp [forged]
  · by_cases foreign : openSsl.x509Verify parsed.certificate publicKey = .incorrect
    · simp [forged, foreign]
    · simp only [forged, foreign, if_false, Except.ok.injEq, ne_eq, not_false_eq_true, true_and]
      exact eq_comm

theorem read_iff {publicKey : PublicKey} {license : SoftwareLicense} :
    licenseRead openSsl system licenseFilename publicKey = some (.ok license) ↔
      ∃ parsed, Reads openSsl system licenseFilename parsed ∧ verifyLicense openSsl publicKey parsed = .ok license := by
  unfold licenseRead Reads
  cases found : openLicense system licenseFilename with
  | none => simp
  | some content =>
    simp only [Option.map_eq_some_iff, Option.some.injEq, exists_eq_left']
    constructor
    · rintro ⟨⟨error⟩ | ⟨parsed⟩, read, verified⟩
      · cases verified
      · exact ⟨parsed, read, verified⟩
    · rintro ⟨parsed, read, verified⟩
      exact ⟨.ok parsed, read, verified⟩

/-- A license is accepted just when no verification is 0, the product matches and the date
    that was read has not passed. -/
theorem accepted_iff : licenseCheckProductLicense openSsl system certificate productName licenseFilename = some none ↔
    ∃ parsed publicKey, Reads openSsl system licenseFilename parsed ∧ openSsl.getPublicKey certificate = some publicKey ∧
      openSsl.verifyFinal parsed.signedPart parsed.signature parsed.key ≠ .incorrect ∧
      openSsl.x509Verify parsed.certificate publicKey ≠ .incorrect ∧
      system.time ≤ parsed.license.expiryDate ∧ strcaseEq parsed.license.product productName = true := by
  unfold licenseCheckProductLicense
  constructor
  · intro accepted
    obtain ⟨publicKey, root, checked⟩ := Option.bind_eq_some_iff.mp accepted
    obtain ⟨result, read, decided⟩ := Option.bind_eq_some_iff.mp checked
    cases result with
    | error error => cases decided
    | ok license =>
      obtain ⟨parsed, reads, verified⟩ := read_iff.mp read
      obtain ⟨signed, certified, rfl⟩ := verify_iff.mp verified
      refine ⟨parsed, publicKey, reads, root, signed, certified, ?_⟩
      cases valid : licenseIsValid system parsed.license productName with
      | none => exact isValid_iff.mp valid
      | some reason =>
        simp only [valid, Option.map_eq_some_iff, reduceCtorEq, and_false, exists_false] at decided
  · rintro ⟨parsed, publicKey, reads, root, signed, certified, valid⟩
    have read := read_iff.mpr ⟨parsed, reads, verify_iff.mpr ⟨signed, certified, rfl⟩⟩
    simp only [root, Option.bind_some, read, isValid_iff.mpr valid]

theorem reads_unique {first second : Parsed X509 PublicKey} (one : Reads openSsl system licenseFilename first)
    (other : Reads openSsl system licenseFilename second) : first = second := by
  obtain ⟨content, found, parsed⟩ := one
  obtain ⟨again, same, twice⟩ := other
  rw [found] at same
  cases same
  rw [parsed] at twice
  cases twice
  rfl

/-- The license that is accepted is the one in the file. -/
private theorem onlyVerified_iff : OnlyVerified openSsl system certificate productName licenseFilename ↔
    ∀ parsed publicKey, Reads openSsl system licenseFilename parsed → openSsl.getPublicKey certificate = some publicKey →
      strcaseEq parsed.license.product productName = true →
      (openSsl.verifyFinal parsed.signedPart parsed.signature parsed.key ≠ .incorrect →
        openSsl.x509Verify parsed.certificate publicKey ≠ .incorrect → system.time ≤ parsed.license.expiryDate →
        openSsl.verifyFinal parsed.signedPart parsed.signature parsed.key = .correct ∧
          openSsl.x509Verify parsed.certificate publicKey = .correct ∧ system.time ≤ writtenDate system parsed.expiry) := by
  unfold OnlyVerified
  rw [accepted_iff]
  constructor
  · intro only parsed publicKey reads root product signed certified unexpired
    obtain ⟨again, other, same, known, first, second, _, date⟩ :=
      only ⟨parsed, publicKey, reads, root, signed, certified, unexpired, product⟩
    rw [root] at known
    cases known
    rw [reads_unique same reads] at first second date
    exact ⟨first, second, date⟩
  · rintro only ⟨parsed, publicKey, reads, root, signed, certified, unexpired, product⟩
    obtain ⟨first, second, date⟩ := only parsed publicKey reads root product signed certified unexpired
    exact ⟨parsed, publicKey, reads, root, first, second, product, date⟩

/-- When two verifications that found nothing incorrect are two correct ones. -/
private theorem verifications_iff {first second : Verification} {now read written : Int} :
    (first ≠ .incorrect → second ≠ .incorrect → now ≤ read → first = .correct ∧ second = .correct ∧ now ≤ written) ↔
      (now ≤ read → (first = .failed → second = .incorrect) ∧ (second = .failed → first = .incorrect)) ∧
        (first ≠ .incorrect → second ≠ .incorrect → written < now → read < now) := by
  -- Two correct ones leave the date, and a failed one leaves nothing to accept.
  cases first <;> cases second <;> simp <;> omega

/-- Only verified licenses are accepted exactly when no failure of a verification and no
    misread year decides about one. -/
theorem only_verified_iff (openSsl : OpenSsl X509 PublicKey) (system : System) (certificate : X509)
    (productName licenseFilename : Text) :
    OnlyVerified openSsl system certificate productName licenseFilename ↔
      Decided openSsl system certificate productName licenseFilename := by
  rw [onlyVerified_iff]
  exact forall₅_congr fun _ _ _ _ _ => verifications_iff

/-- A plain line is read as it is. -/
theorem readLine_body {body : Text} (clean : LF ∉ body ∧ 0 ∉ body) (ending : body.getLast? ≠ some CR)
    (plain : body ≠ [] ∧ isComment body = false) (room : body.length < 1024) (rest stale : Text) :
    readLine system ⟨body ++ LF :: rest, false⟩ stale = some (body, ⟨rest, false⟩) := by
  have read := @fileReadLine_body (licenseFileMaxLineLength + 1) body clean ending plain
    (by simp only [licenseFileMaxLineLength]; omega) rest stale system.errno
  simp only [readLine, read, Option.bind_some, if_true, cString_of_noNul clean.2]

end

/-- The lines of a license for a product. -/
def licenseText : Text :=
  lit "3" ++ LF :: (lit "7" ++ LF :: (lit "Ada" ++ LF :: (lit "20300101" ++ LF :: (lit "isi" ++ LF :: lit "CERT\n0f"))))

/-- A root that can not be verified against, by an error of `X509_verify`. -/
def unknownRoot : OpenSsl Unit Unit where
  pemReadX509 := fun _ => (some (), 5)
  getPublicKey := some
  pkeySize := fun _ => 1
  verifyFinal := fun _ _ _ => .correct
  x509Verify := fun _ _ => .failed

/-- A system with one license file, in the year 2023. -/
def oneFile : System where
  voxiIsiDir := none
  fopen := fun name => if name = lit "isi.lic" then some licenseText else none
  errno := 0
  strerror := []
  buf := []
  buf2 := []
  mktime := fun year _ _ => (year.toInt - 70) * 31556952
  time := 1700000000
  ctime := fun _ => []

theorem oneFile_reads : Reads unknownRoot oneFile (lit "isi.lic")
    ⟨⟨7, lit "Ada", 1893417120, lit "isi"⟩, lit "20300101", (), (), licenseText.take 26, [15]⟩ := by
  refine ⟨licenseText, rfl, ?_⟩
  have first := @readLine_body oneFile (lit "3") (by decide) (by decide) (by decide) (by decide)
  have second := @readLine_body oneFile (lit "7") (by decide) (by decide) (by decide) (by decide)
  have third := @readLine_body oneFile (lit "Ada") (by decide) (by decide) (by decide) (by decide)
  have fourth := @readLine_body oneFile (lit "20300101") (by decide) (by decide) (by decide) (by decide)
  have fifth := @readLine_body oneFile (lit "isi") (by decide) (by decide) (by decide) (by decide)
  have start : parseLicense unknownRoot oneFile licenseText =
      parseLicense unknownRoot oneFile (lit "3" ++ LF :: (lit "7" ++ LF :: (lit "Ada" ++ LF :: (lit "20300101" ++ LF ::
        (lit "isi" ++ LF :: lit "CERT\n0f"))))) := rfl
  rw [start]
  simp only [parseLicense, first, second, third, fourth, fifth, Option.bind_eq_bind, Option.bind_some]
  rfl

/-- A license whose authority could not be verified is accepted. -/
theorem unverified_accepted :
    licenseCheckProductLicense unknownRoot oneFile () (lit "ISI") (lit "isi.lic") = some none ∧
      ¬ OnlyVerified unknownRoot oneFile () (lit "ISI") (lit "isi.lic") := by
  have accepted : licenseCheckProductLicense unknownRoot oneFile () (lit "ISI") (lit "isi.lic") = some none :=
    accepted_iff.mpr ⟨_, (), oneFile_reads, rfl, by decide, by decide, by decide, by decide⟩
  refine ⟨accepted, ?_⟩
  intro only
  obtain ⟨parsed, publicKey, _, _, _, certified, _⟩ := only accepted
  cases certified

end VoxiUtil.License
