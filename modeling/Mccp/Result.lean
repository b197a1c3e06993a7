/-
  Mccp.Result
  ───────────
  The result codes of mccp_error.h.  A `mccp_result_t` is a signed integer:
  zero and up is success (a size, a count), each failure is its own negative
  number.
-/
namespace Mccp

/-- `mccp_result_t`. -/
abbrev Result := Int

namespace Result

/-- `MCCP_RESULT_OK`. -/
abbrev ok : Result := 0
/-- `MCCP_RESULT_ANY_FAILURES`. -/
abbrev anyFailures : Result := -1
/-- `MCCP_RESULT_POSIX_API_ERROR`. -/
abbrev posixApiError : Result := -2
/-- `MCCP_RESULT_NO_MEMORY`. -/
abbrev noMemory : Result := -3
/-- `MCCP_RESULT_NOT_FOUND`. -/
abbrev notFound : Result := -4
/-- `MCCP_RESULT_ALREADY_EXISTS`. -/
abbrev alreadyExists : Result := -5
/-- `MCCP_RESULT_NOT_OPERATIONAL`. -/
abbrev notOperational : Result := -6
/-- `MCCP_RESULT_INVALID_ARGS`. -/
abbrev invalidArgs : Result := -7
/-- `MCCP_RESULT_NOT_STARTED`. -/
abbrev notStarted : Result := -9
/-- `MCCP_RESULT_TIMEDOUT`. -/
abbrev timedout : Result := -10
/-- `MCCP_RESULT_ITERATION_HALTED`. -/
abbrev iterationHalted : Result := -11
/-- `MCCP_RESULT_OUT_OF_RANGE`. -/
abbrev outOfRange : Result := -12
/-- `MCCP_RESULT_INVALID_OBJECT`. -/
abbrev invalidObject : Result := -15
/-- `MCCP_RESULT_CRITICAL_REGION_NOT_CLOSED`. -/
abbrev criticalRegionNotClosed : Result := -16
/-- `MCCP_RESULT_CRITICAL_REGION_NOT_OPENED`. -/
abbrev criticalRegionNotOpened : Result := -17
/-- `MCCP_RESULT_INVALID_STATE_TRANSITION`. -/
abbrev invalidStateTransition : Result := -18
/-- `MCCP_RESULT_BUSY`. -/
abbrev busy : Result := -19
/-- `MCCP_RESULT_QUOTE_NOT_CLOSED`. -/
abbrev quoteNotClosed : Result := -22

end Result

end Mccp
