import ZigbeeHost.Command
import ZigbeeHost.Bytes.Hex
/-!
# The catalogue of commands

The ids that each subsystem defines, with their names. `Command.display` writes a
command by name, and by its id in hexadecimal if the catalogue lacks it.
-/

namespace ZigbeeHost

namespace Catalogue

/-- Commands of the system subsystem. -/
def sysTable : List (UInt8 × String) := [
  (0x00, "RESET"),
  (0x01, "PING"),
  (0x02, "VERSION"),
  (0x03, "SET_EXTADDR"),
  (0x04, "GET_EXTADDR"),
  (0x05, "RAM_READ"),
  (0x06, "RAM_WRITE"),
  (0x07, "OSAL_NV_ITEM_INIT"),
  (0x08, "OSAL_NV_READ"),
  (0x09, "OSAL_NV_WRITE"),
  (0x0A, "OSAL_START_TIMER"),
  (0x0B, "OSAL_STOP_TIMER"),
  (0x0C, "RANDOM"),
  (0x0D, "ADC_READ"),
  (0x0E, "GPIO"),
  (0x0F, "STACK_TUNE"),
  (0x10, "SET_TIME"),
  (0x11, "GET_TIME"),
  (0x12, "OSAL_NV_DELETE"),
  (0x13, "OSAL_NV_LENGTH"),
  (0x40, "TEST_RF"),
  (0x41, "TEST_LOOPBACK"),
  (0x80, "RESET_IND"),
  (0x81, "OSAL_TIMER_EXPIRED")]

/-- Commands of the application framework. -/
def afTable : List (UInt8 × String) := [
  (0x00, "REGISTER"),
  (0x01, "DATA_REQUEST"),
  (0x02, "DATA_REQUEST_EXT"),
  (0x03, "DATA_REQUEST_SRC_RTG"),
  (0x10, "INTER_PAN_CTL"),
  (0x11, "DATA_STORE"),
  (0x12, "DATA_RETRIEVE"),
  (0x13, "APSF_CONFIG_SET"),
  (0x80, "DATA_CONFIRM"),
  (0x81, "INCOMING_MSG"),
  (0x82, "INCOMING_MSG_EXT"),
  (0x83, "REFLECT_ERROR")]

/-- Commands of the device object. -/
def zdoTable : List (UInt8 × String) := [
  (0x00, "NWK_ADDR_REQ"),
  (0x01, "IEEE_ADDR_REQ"),
  (0x02, "NODE_DESC_REQ"),
  (0x03, "POWER_DESC_REQ"),
  (0x04, "SIMPLE_DESC_REQ"),
  (0x05, "ACTIVE_EP_REQ"),
  (0x06, "MATCH_DESC_REQ"),
  (0x07, "COMPLEX_DESC_REQ"),
  (0x08, "USER_DESC_REQ"),
  (0x0A, "DEVICE_ANNCE"),
  (0x0B, "USER_DESC_SET"),
  (0x0C, "SERVER_DISC_REQ"),
  (0x20, "END_DEVICE_BIND_REQ"),
  (0x21, "BIND_REQ"),
  (0x22, "UNBIND_REQ"),
  (0x23, "SET_LINK_KEY"),
  (0x24, "REMOVE_LINK_KEY"),
  (0x25, "GET_LINK_KEY"),
  (0x30, "MGMT_NWK_DISC_REQ"),
  (0x31, "MGMT_LQI_REQ"),
  (0x32, "MGMT_RTG_REQ"),
  (0x33, "MGMT_BIND_REQ"),
  (0x34, "MGMT_LEAVE_REQ"),
  (0x35, "MGMT_DIRECT_JOIN_REQ"),
  (0x36, "MGMT_PERMIT_JOIN_REQ"),
  (0x37, "MGMT_NWK_UPDATE_REQ"),
  (0x3E, "MSG_CB_REGISTER"),
  (0x3F, "MSG_CB_REMOVE"),
  (0x40, "STARTUP_FROM_APP"),
  (0x41, "AUTO_FIND_DESTINATION"),
  (0x47, "EXT_REMOVE_GROUP"),
  (0x48, "EXT_REMOVE_ALL_GROUP"),
  (0x49, "EXT_FIND_ALL_GROUPS_ENDPOINT"),
  (0x4A, "EXT_FIND_GROUP"),
  (0x4B, "EXT_ADD_GROUP"),
  (0x4C, "EXT_COUNT_ALL_GROUPS"),
  (0x80, "NWK_ADDR_RSP"),
  (0x81, "IEEE_ADDR_RSP"),
  (0x82, "NODE_DESC_RSP"),
  (0x83, "POWER_DESC_RSP"),
  (0x84, "SIMPLE_DESC_RSP"),
  (0x85, "ACTIVE_EP_RSP"),
  (0x86, "MATCH_DESC_RSP"),
  (0x87, "COMPLEX_DESC_RSP"),
  (0x88, "USER_DESC_RSP"),
  (0x89, "USER_DESC_CONF"),
  (0x8A, "SERVER_DISC_RSP"),
  (0xA0, "END_DEVICE_BIND_RSP"),
  (0xA1, "BIND_RSP"),
  (0xA2, "UNBIND_RSP"),
  (0xB0, "MGMT_NWK_DISC_RSP"),
  (0xB1, "MGMT_LQI_RSP"),
  (0xB2, "MGMT_RTG_RSP"),
  (0xB3, "MGMT_BIND_RSP"),
  (0xB4, "MGMT_LEAVE_RSP"),
  (0xB5, "MGMT_DIRECT_JOIN_RSP"),
  (0xB6, "MGMT_PERMIT_JOIN_RSP"),
  (0xC0, "STATE_CHANGE_IND"),
  (0xC1, "END_DEVICE_ANNCE_IND"),
  (0xC2, "MATCH_DESC_RSP_SENT"),
  (0xC3, "STATUS_ERROR_RSP"),
  (0xC4, "SRC_RTG_IND"),
  (0xC9, "LEAVE_IND"),
  (0xCA, "TC_DEV_IND"),
  (0xCB, "PERMIT_JOIN_IND"),
  (0xFF, "MSG_CB_INCOMING")]

/-- Commands of the simple interface. -/
def sapiTable : List (UInt8 × String) := [
  (0x00, "START_REQUEST"),
  (0x01, "BIND_DEVICE"),
  (0x02, "ALLOW_BIND"),
  (0x03, "SEND_DATA_REQUEST"),
  (0x04, "READ_CONFIGURATION"),
  (0x05, "WRITE_CONFIGURATION"),
  (0x06, "GET_DEVICE_INFO"),
  (0x07, "FIND_DEVICE_REQUEST"),
  (0x08, "PERMIT_JOINING_REQUEST"),
  (0x09, "SYSTEM_RESET"),
  (0x80, "START_CONFIRM"),
  (0x81, "BIND_CONFIRM"),
  (0x82, "ALLOW_BIND_CONFIRM"),
  (0x83, "SEND_DATA_CONFIRM"),
  (0x85, "FIND_DEVICE_CONFIRM"),
  (0x87, "RECEIVE_DATA_INDICATION")]

/-- Commands of the utility subsystem. -/
def utilTable : List (UInt8 × String) := [
  (0x00, "GET_DEVICE_INFO"),
  (0x01, "GET_NV_INFO"),
  (0x02, "SET_PANID"),
  (0x03, "SET_CHANNELS"),
  (0x04, "SET_SECLEVEL"),
  (0x05, "SET_PRECFGKEY"),
  (0x06, "CALLBACK_SUB_CMD"),
  (0x07, "KEY_EVENT"),
  (0x09, "TIME_ALIVE"),
  (0x0A, "LED_CONTROL"),
  (0x10, "TEST_LOOPBACK"),
  (0x11, "DATA_REQ"),
  (0x20, "SRC_MATCH_ENABLE"),
  (0x21, "SRC_MATCH_ADD_ENTRY"),
  (0x22, "SRC_MATCH_DEL_ENTRY"),
  (0x23, "SRC_MATCH_CHECK_SRC_ADDR"),
  (0x24, "SRC_MATCH_ACK_ALL_PENDING"),
  (0x25, "SRC_MATCH_CHECK_ALL_PENDING"),
  (0x40, "ADDRMGR_EXT_ADDR_LOOKUP"),
  (0x41, "ADDRMGR_NWK_ADDR_LOOKUP"),
  (0x44, "APSME_LINK_KEY_DATA_GET"),
  (0x45, "APSME_LINK_KEY_NV_ID_GET"),
  (0x48, "ASSOC_COUNT"),
  (0x49, "ASSOC_FIND_DEVICE"),
  (0x4A, "ASSOC_GET_WITH_ADDRESS"),
  (0x4B, "APSME_REQUEST_KEY_CMD"),
  (0x80, "ZCL_KEY_EST_INIT_EST"),
  (0x81, "ZCL_KEY_EST_SIGN"),
  (0xE0, "UTIL_SYNC_REQ"),
  (0xE1, "ZCL_KEY_ESTABLISH_IND")]

/-- Commands of the application configuration. -/
def appCnfTable : List (UInt8 × String) := [
  (0x05, "BDB_START_COMMISSIONING"),
  (0x08, "BDB_SET_CHANNEL"),
  (0x80, "BDB_COMMISSIONING_NOTIFICATION")]

/-- The table of a subsystem; one without commands of its own has an empty table. -/
def table (s : Subsystem) : List (UInt8 × String) :=
  if s = .sys then sysTable else
  if s = .af then afTable else
  if s = .zdo then zdoTable else
  if s = .sapi then sapiTable else
  if s = .util then utilTable else
  if s = .appCnf then appCnfTable else
  []

end Catalogue

/-- The name of the command, if the catalogue has one. -/
def Command.name? (c : Command) : Option String :=
  (Catalogue.table c.subsystem).lookup c.id

/-- The subsystem, followed by the command's name or its id. -/
def Command.display (c : Command) : String :=
  c.subsystem.display ++ " " ++ c.name?.getD ("0x" ++ hex 2 c.id.toNat)

end ZigbeeHost
