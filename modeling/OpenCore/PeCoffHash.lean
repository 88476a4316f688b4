import OpenCore.Base
import OpenCore.ByteSlices

/-!
The Apple signature of a PE image in `OcPeCoffExtLib.c`: where the certificate is
looked for, which bytes are zeroed, and which bytes are hashed. The loader's
context, SHA-256, the key database and the RSA check are code of other libraries.
-/

namespace OpenCore.PeCoffHash

open Base ByteBuffer ByteSlices

inductive ImageType where
  | te
  | pe32
  | pe32Plus
  deriving DecidableEq

structure Context where
  imageType : ImageType
  exeHdrOffset : Nat
  sizeOfHeaders : Nat
  deriving DecidableEq

inductive VerifyStatus where
  | success
  | unsupported
  | securityViolation
  deriving DecidableEq

def dosHeaderSize : Nat := 64
def dataDirectorySize : Nat := 8
def directoryEntrySecurity : Nat := 4
def appleChecksumOffset : Nat := 88
def appleChecksumSize : Nat := 4
def certificateInfoSize : Nat := 8
def certificateSize : Nat := 552
def appleCertificateType : Nat := 0x0EF1

/-- The offsets of `NumberOfRvaAndSizes` and `DataDirectory` in the headers of a type;
TE images have none. -/
def directoryOffsets : ImageType → Option (Nat × Nat)
  | .pe32 => some (116, 120)
  | .pe32Plus => some (132, 136)
  | .te => none

section Certificate

/-- `PeCoffGetSecurityDirectoryEntry`: the offset of the entry, its address and size. -/
def peCoffGetSecurityDirectoryEntry (context : Context) (file : Bytes) :
    Option (Nat × Nat × Nat) :=
  (directoryOffsets context.imageType).bind fun offsets =>
    if load file 4 (context.exeHdrOffset + offsets.1) ≤ directoryEntrySecurity then none
    else
      let entry := context.exeHdrOffset + offsets.2 + directoryEntrySecurity * dataDirectorySize
      let virtualAddress := load file 4 entry
      let size := load file 4 (entry + 4)
      if virtualAddress < context.sizeOfHeaders then none
      else
        (baseOverflowAdd u32 virtualAddress size).bind fun entryTop =>
          if file.length < entryTop then none else some (entry, virtualAddress, size)

structure CertificateInfo where
  certOffset : Nat
  certSize : Nat
  secDirOffset : Nat
  signedFileSize : Nat
  deriving DecidableEq

def peCoffGetAppleCertificateInfo (context : Context) (file : Bytes) : Option CertificateInfo :=
  (peCoffGetSecurityDirectoryEntry context file).bind fun (entry, virtualAddress, size) =>
    if size ≠ certificateInfoSize then none
    else if virtualAddress % 4 ≠ 0 then none
    else
      let certOffset := load file 4 virtualAddress
      let certSize := load file 4 (virtualAddress + 4)
      (baseOverflowAdd u32 certOffset certSize).bind fun endOffset =>
        if file.length < endOffset then none
        else
          some { certOffset, certSize, secDirOffset := entry % u32, signedFileSize := virtualAddress }

structure Externals (κ : Type) where
  sha256 : Bytes → Bytes
  pkDataBase : List (Bytes × κ)
  rsaVerify : κ → Bytes → Bytes → Bool
  appleEfiCertificateGuid : Bytes
  rsa2048Sha256Guid : Bytes

variable {κ : Type} (env : Externals κ)

/-- `PeCoffGetAppleSignature`: the public key and the signature in big endian. -/
def peCoffGetAppleSignature (file : Bytes) (info : CertificateInfo) : Option (κ × Bytes) :=
  if info.certSize ≠ certificateSize then none
  else if info.certOffset % 4 ≠ 0 then none
  else if info.certSize ≠ load file 4 info.certOffset then none
  else if load file 2 (info.certOffset + 6) ≠ appleCertificateType then none
  else if slice file (info.certOffset + 8) 16 ≠ env.appleEfiCertificateGuid then none
  else if slice file (info.certOffset + 24) 16 ≠ env.rsa2048Sha256Guid then none
  else
    let publicKeyHash := env.sha256 (slice file (info.certOffset + 40) 256)
    (env.pkDataBase.find? fun key => key.1 == publicKeyHash).map fun key =>
      (key.2, (slice file (info.certOffset + 296) 256).reverse)

end Certificate

section Hash

def zeroMem (file : Bytes) (offset size : Nat) : Bytes :=
  overlay file offset (List.replicate size 0)

def peCoffSanitiseAppleImage (context : Context) (secDirOffset signedFileSize : Nat)
    (file : Bytes) : Option Bytes :=
  if context.imageType ≠ .pe32 ∧ context.imageType ≠ .pe32Plus then none
  else if context.exeHdrOffset < dosHeaderSize then none
  else
    let stub := zeroMem file dosHeaderSize (context.exeHdrOffset - dosHeaderSize)
    let checksum := zeroMem stub (context.exeHdrOffset + appleChecksumOffset) appleChecksumSize
    let secEntry := zeroMem checksum secDirOffset dataDirectorySize
    some (zeroMem secEntry signedFileSize (file.length - signedFileSize))

def peCoffHashAppleImage (context : Context) (secDirOffset signedFileSize : Nat) (image : Bytes) :
    List Bytes :=
  let checksum := context.exeHdrOffset + appleChecksumOffset
  let header := checksum + appleChecksumSize
  let headerSize := wrapSub u32 secDirOffset (header % u32)
  let rest := header + headerSize + dataDirectorySize
  let restSize := wrapSub u32 signedFileSize (rest % u32)
  [slice image 0 dosHeaderSize, slice image context.exeHdrOffset appleChecksumOffset,
    slice image header headerSize, slice image rest restSize]

/-- What is left of a verified image: the sanitised file, the size of the image in it,
and the data that were hashed. -/
structure Hashed where
  image : Bytes
  imageSize : Nat
  updates : List Bytes
  deriving DecidableEq

/-- `InternalPeCoffVerifyAppleSignatureFromContext`; nothing is hashed when it is left
before that. -/
def internalPeCoffVerifyAppleSignatureFromContext {κ : Type} (env : Externals κ)
    (context : Context) (file : Bytes) : VerifyStatus × Option Hashed :=
  match peCoffGetAppleCertificateInfo context file with
  | none => (.unsupported, none)
  | some info =>
    match peCoffGetAppleSignature env file info with
    | none => (.unsupported, none)
    | some (publicKey, signature) =>
      match peCoffSanitiseAppleImage context info.secDirOffset info.signedFileSize file with
      | none => (.unsupported, none)
      | some image =>
        let updates :=
          peCoffHashAppleImage context info.secDirOffset info.signedFileSize image
        let hashed := { image, imageSize := info.signedFileSize, updates }
        if env.rsaVerify publicKey signature (env.sha256 updates.flatten) then
          (.success, some hashed)
        else (.securityViolation, some hashed)

end Hash

end OpenCore.PeCoffHash
