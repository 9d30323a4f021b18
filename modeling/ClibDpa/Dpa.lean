import Mathlib.Tactic

/-!
# ClibDpa.Dpa

The values of `include/DPA.h` and of the interface headers that the modelled functions read.
An error code is an `Int`: the result object stores both the codes of the library (negative) and
the response codes of the network (one byte) in one `int`.
-/

namespace ClibDpa

def coordinatorAddress : UInt16 := 0x00
def broadcastAddress : UInt16 := 0xff

def pnumCoordinator : UInt8 := 0x00
def pnumFrc : UInt8 := 0x0D

def cmdCoordinatorBondNode : UInt8 := 4
def cmdCoordinatorDiscovery : UInt8 := 7
def cmdCoordinatorAuthorizeBond : UInt8 := 13
def cmdCoordinatorSmartConnect : UInt8 := 18

def cmdFrcSend : UInt8 := 0
def cmdFrcSendSelective : UInt8 := 2

def statusAsyncResponse : UInt8 := 0x80
def statusConfirmation : UInt8 := 0xff

/-- `sizeof( TDpaIFaceHeader )`: NADR, PNUM, PCMD, HWPID. -/
def sizeofTDpaIFaceHeader : Nat := 6

/-! ## `IDpaTransactionResult2::ErrorCode` -/

abbrev ErrorCode := Int

def trnErrorIfaceExclusiveAccess : ErrorCode := -8
def trnErrorBadResponse : ErrorCode := -7
def trnErrorBadRequest : ErrorCode := -6
def trnErrorIfaceBusy : ErrorCode := -5
def trnErrorIface : ErrorCode := -4
def trnErrorAborted : ErrorCode := -3
def trnErrorIfaceQueueFull : ErrorCode := -2
def trnErrorTimeout : ErrorCode := -1
def trnOk : ErrorCode := 0

def trnErrorFail : ErrorCode := 1
def trnErrorPcmd : ErrorCode := 2
def trnErrorPnum : ErrorCode := 3
def trnErrorAddr : ErrorCode := 4
def trnErrorDataLen : ErrorCode := 5
def trnErrorData : ErrorCode := 6
def trnErrorHwpid : ErrorCode := 7
def trnErrorNadr : ErrorCode := 8
def trnErrorIfaceCustomHandler : ErrorCode := 9
def trnErrorMissingCustomDpaHandler : ErrorCode := 10
def trnErrorUserTo : ErrorCode := 0x3f
def trnStatusConfirmation : ErrorCode := 0xff

/-! ## `IDpaTransaction2` -/

inductive RfMode where
  | std
  | lp
  deriving DecidableEq, Repr

/-- The part of `TimingParams` that the estimates read. -/
structure TimingParams where
  osVersion : String
  deriving DecidableEq, Repr

def defaultTimeoutMs : Int32 := 500
def minimalTimeout : Int32 := 200
def infiniteTimeout : Int := 0
def safetyTimeoutMs : Int := 40
def bondTimeoutMs : Int := 11000

/-- Conversion of a signed value to `uint32_t`. -/
def toUint32 (x : Int) : Nat := (x % 4294967296).toNat

theorem toUint32_of_nonneg {x : Int} (h : 0 ≤ x) (h' : x < 4294967296) :
    toUint32 x = x.toNat := by
  rw [toUint32, Int.emod_eq_of_lt h h']

/-! ## Exceptions

The classes derived from `std::exception` that the code throws or catches, with their texts.
`other` is one that is not a `std::logic_error` (a channel's or a user handler's exception). -/

inductive Exc where
  | logicError (what : String)
  | invalidArgument (what : String)
  | lengthError (what : String)
  | other (what : String)
  deriving DecidableEq, Repr

/-- Caught by `catch ( std::logic_error& )`: the class itself and the two derived from it. -/
def Exc.isLogicError : Exc → Bool
  | .logicError _ | .invalidArgument _ | .lengthError _ => true
  | .other _ => false

end ClibDpa
